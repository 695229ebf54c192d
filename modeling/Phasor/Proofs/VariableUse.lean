import Phasor.Elementary.Platform
import Phasor.Proofs.OperationErrors
import Phasor.Proofs.Operations

/-!
# What evaluation reads

Evaluation asks the environment for the values of the variables of the tree and for nothing else
(`Expr.evaluate_congr`), so how such a value is bound does not matter. A tree that has a value needed all of
them, and an unbound variable that is reported is one of them.
-/

namespace Phasor

/-! ### Values of bindings -/

namespace Environment

variable {env env' : Environment} {n m : String}

theorem value_congr (h : env.find? n = env'.find? n) : env.value n = env'.value n := by
  rw [value, value, h]

theorem binds_of_value {z : Complex} (h : env.value n = .ok z) : env.binds n = true := by
  unfold value at h
  rw [binds]
  split at h
  · rename_i hfind
    rw [hfind]
    rfl
  · exact absurd h (by simp)

theorem value_eq_unbound (h : env.value n = .error (.eval (.unbound m))) : m = n ∧ env.binds n = false := by
  unfold value at h
  rw [binds]
  split at h
  · rcases Binding.value_eq_error h with ⟨t, ht⟩ | hf
    · exact absurd ht (by simp)
    · exact absurd hf (by simp)
  · rename_i hfind
    rw [hfind]
    exact ⟨(EvalError.unbound.inj (Failure.eval.inj (Except.error.inj h))).symm, rfl⟩

/-- Text may be read before it is bound. -/
theorem value_bind_of_ofInput {s : String} {z : Complex} (h : env.find? n = some (.datum (.text s)))
    (hz : Complex.ofInput s = .ok z) (m : String) : (env.bind n (.complex z)).value m = env.value m := by
  by_cases hm : n = m
  · subst hm
    rw [value, value, find?_bind, if_pos rfl, h]
    dsimp only [Binding.value]
    rw [hz]
    rfl
  · rw [value, value, find?_bind, if_neg hm]

end Environment

/-! ### Operations that leave variables alone -/

section

variable [Elementary]

theorem applyOperator_ne_unbound {op : String} {z w : Complex} {m : String} :
    applyOperator op z w ≠ .error (.unbound m) := by
  intro h
  by_cases hop : isBinarySymbol op = true
  · rcases applyOperator_eq_error hop h with h | h | h <;> exact absurd h (by simp)
  · rw [applyOperator_of_not_isBinarySymbol hop] at h
    exact absurd h (by simp)

theorem applyFunction_ne_unbound {f : String} {zs : List Complex} {m : String} :
    applyFunction f zs ≠ .error (.eval (.unbound m)) := by
  intro h
  unfold applyFunction at h
  split at h
  · exact absurd h (by simp)
  · obtain ⟨f, -, hf⟩ := mapError_eq_error h
    exact absurd hf (by simp)
  · rcases applyRoot_eq_error h with h | ⟨_, h⟩ | h | h | h <;> exact absurd h (by simp)
  all_goals exact absurd h (by simp)

end

namespace Expr

section

variable [Elementary] {env env' : Environment} {e : Expr} {es : List Expr}

theorem operate_eq_unbound {zs : List Complex} {m : String} (h : e.operate env zs = .error (.eval (.unbound m))) :
    e = var m ∧ env.binds m = false := by
  unfold operate at h
  split at h
  · obtain ⟨err, hread, herr⟩ := mapError_eq_error h
    rw [Complex.ofLiteral_eq_error hread] at herr
    exact absurd herr (by simp)
  · obtain ⟨rfl, hbinds⟩ := Environment.value_eq_unbound h
    exact ⟨rfl, hbinds⟩
  · exact absurd h (by simp)
  · obtain ⟨err, happly, herr⟩ := mapError_eq_error h
    obtain rfl := Failure.eval.inj herr
    exact absurd happly applyOperator_ne_unbound
  · exact absurd h applyFunction_ne_unbound
  · exact absurd h (by simp)

/-! ### Environments that agree -/

theorem evaluateAll_congr (h : ∀ e ∈ es, e.evaluate env = e.evaluate env') :
    evaluateAll env es = evaluateAll env' es := by
  induction es with
  | nil => rfl
  | cons e es ih =>
    obtain ⟨he, hes⟩ := List.forall_mem_cons.1 h
    rw [evaluateAll, evaluateAll, he, ih hes]

theorem operate_congr (h : ∀ n, e = var n → env.value n = env'.value n) : e.operate env = e.operate env' := by
  funext zs
  cases e with
  | var n => exact h n rfl
  | lit t => rfl
  | call f args => rfl
  | unary op e => cases zs <;> rfl
  | binary op l r =>
    cases zs with
    | nil => rfl
    | cons z zs => cases zs <;> rfl

/-- Environments that give the variables of a tree the same values give the tree the same value or failure. -/
theorem evaluate_congr (h : ∀ n ∈ e.variables, env.value n = env'.value n) : e.evaluate env = e.evaluate env' := by
  simp only [mem_variables] at h
  induction e using induction_children with
  | h e ih =>
    have hnode : ∀ n, e = var n → env.value n = env'.value n := by
      rintro n rfl
      exact h n (List.mem_singleton_self _)
    have hchildren : ∀ c ∈ e.children, c.evaluate env = c.evaluate env' := fun c hc =>
      ih c hc fun n hn => h n (by
        rw [nodes_eq]
        exact List.mem_append_left _ (List.mem_flatMap_of_mem hc hn))
    rw [evaluate_eq, evaluate_eq, evaluateAll_congr hchildren, operate_congr hnode]

theorem binds_of_evaluate {z : Complex} (h : e.evaluate env = .ok z) {n : String} (hn : n ∈ e.variables) :
    env.binds n = true := by
  obtain ⟨w, hw⟩ := exists_evaluate_of_mem_nodes h (mem_variables.1 hn)
  exact Environment.binds_of_value hw

theorem mem_variables_of_unbound {n : String} (h : e.evaluate env = .error (.eval (.unbound n))) :
    n ∈ e.variables ∧ env.binds n = false := by
  obtain ⟨m, hfirst⟩ := exists_failsFirst h
  obtain ⟨zs, -, hoperate⟩ := hfirst.operate
  obtain ⟨rfl, hbinds⟩ := operate_eq_unbound hoperate
  exact ⟨mem_variables.2 hfirst.comesTo.mem_nodes, hbinds⟩

/-- The variables of a tree are exactly what its evaluation reads: other bindings do not matter, all of these are
needed for a value, and a missing one is reported by name. Text that is read when it is looked up may as well be
bound as the number it stands for. -/
theorem evaluate_reads_variables (e : Expr) (env : Environment) :
    (∀ env' : Environment, (∀ n ∈ e.variables, env.find? n = env'.find? n) → e.evaluate env = e.evaluate env') ∧
    (∀ z, e.evaluate env = .ok z → ∀ n ∈ e.variables, env.binds n = true) ∧
    (∀ n, e.evaluate env = .error (.eval (.unbound n)) → n ∈ e.variables ∧ env.binds n = false) ∧
    ∀ n s z, env.find? n = some (.datum (.text s)) → Complex.ofInput s = .ok z →
      e.evaluate (env.bind n (.complex z)) = e.evaluate env := by
  refine ⟨fun env' h => ?_, fun z h n hn => ?_, fun n h => ?_, fun n s z h hz => ?_⟩
  · exact evaluate_congr fun n hn => Environment.value_congr (h n hn)
  · exact binds_of_evaluate h hn
  · exact mem_variables_of_unbound h
  · exact evaluate_congr fun m _ => Environment.value_bind_of_ofInput h hz m

end

/-- The name `z` does not matter, without `x` there is no sum, and `3+4i` may be bound as text or as a number. -/
theorem evaluate_sum_reads_variables :
    let e : Expr := binary "+" (var "x") (call "sqrt" [var "y"])
    let env : Environment := [("x", .datum (.text "3+4i")), ("y", .complex .one)]
    let env' : Environment := [("z", .complex .one), ("y", .complex .one), ("x", .datum (.text "3+4i"))]
    e.evaluate env = e.evaluate env' ∧ env.binds "x" = true ∧ "x" ∈ e.variables ∧
      e.evaluate (env.bind "x" (.complex ⟨3, 4⟩)) = e.evaluate env := by
  intro e env env'
  obtain ⟨hagree, hvalue, -, htext⟩ := evaluate_reads_variables e env
  obtain ⟨-, -, hunbound, -⟩ := evaluate_reads_variables e [("y", .complex .one)]
  refine ⟨hagree env' fun n hn => ?_, hvalue ⟨4, 4⟩ (by decide +kernel) "x" (by decide),
    (hunbound "x" rfl).1, htext "x" "3+4i" ⟨3, 4⟩ rfl (by decide +kernel)⟩
  have hnames : n ∈ ["x", "y"] := hn
  rcases List.mem_cons.1 hnames with rfl | hnames
  · rfl
  · obtain rfl := List.mem_singleton.1 hnames
    rfl

end Expr

end Phasor
