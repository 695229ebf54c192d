import Mathlib.Data.List.Forall2
import Phasor.Evaluation
import Phasor.Proofs.Nodes

/-!
# Evaluation node by node

`Expr.operate` computes the value of a node from the values of its children, and evaluation comes down to it
(`evaluate_eq`). Nodes are evaluated in the order of `Expr.nodes`, so a tree fails exactly as the first of them
does that fails by itself (`FailsFirst`, `evaluate_eq_error_iff`).
-/

namespace Phasor.Expr

variable [Elementary]

/-- The value of the node itself, given the values of its children from left to right. -/
def operate (env : Environment) : Expr → List Complex → Except Failure Complex
  | lit t, _ => (Complex.ofLiteral t).mapError .eval
  | var n, _ => env.value n
  | unary _ _, z :: _ => .ok z.neg
  | binary op _ _, z :: w :: _ => (applyOperator op z w).mapError .eval
  | call n _, zs => applyFunction n zs
  | _, _ => .error (.fault .missingArgument)

variable {env : Environment} {e : Expr} {es : List Expr} {zs : List Complex} {f : Failure}

theorem evaluate_eq (env : Environment) (e : Expr) :
    e.evaluate env = (evaluateAll env e.children).bind (e.operate env) := by
  cases e with
  | lit t => rfl
  | var n => rfl
  | unary op e =>
    rw [evaluate, children, evaluateAll, evaluateAll]
    cases e.evaluate env <;> rfl
  | binary op l r =>
    rw [evaluate, children, evaluateAll, evaluateAll, evaluateAll]
    cases l.evaluate env with
    | error f => rfl
    | ok z => cases r.evaluate env <;> rfl
  | call n args =>
    rw [evaluate, children]
    rfl

/-! ### Lists of trees -/

theorem evaluateAll_cons_eq_ok_iff : evaluateAll env (e :: es) = .ok zs ↔
    ∃ w ws, e.evaluate env = .ok w ∧ evaluateAll env es = .ok ws ∧ zs = w :: ws := by
  rw [evaluateAll]
  cases e.evaluate env with
  | error f => simp [bind, Except.bind]
  | ok w => cases evaluateAll env es <;> simp [bind, Except.bind, pure, Except.pure, eq_comm]

theorem evaluateAll_cons_eq_error_iff : evaluateAll env (e :: es) = .error f ↔
    e.evaluate env = .error f ∨ ∃ w, e.evaluate env = .ok w ∧ evaluateAll env es = .error f := by
  rw [evaluateAll]
  cases e.evaluate env with
  | error f' => simp [bind, Except.bind]
  | ok w => cases evaluateAll env es <;> simp [bind, Except.bind, pure, Except.pure]

theorem evaluateAll_eq_ok_iff :
    evaluateAll env es = .ok zs ↔ List.Forall₂ (fun e z => e.evaluate env = .ok z) es zs := by
  induction es generalizing zs with
  | nil =>
    rw [evaluateAll, List.forall₂_nil_left_iff]
    exact ⟨fun h => (Except.ok.inj h).symm, fun h => by rw [h]⟩
  | cons e es ih =>
    rw [evaluateAll_cons_eq_ok_iff, List.forall₂_cons_left_iff]
    simp only [ih]

theorem length_of_evaluateAll (h : evaluateAll env es = .ok zs) : zs.length = es.length :=
  (evaluateAll_eq_ok_iff.1 h).length_eq.symm

theorem exists_of_evaluateAll (h : evaluateAll env es = .ok zs) (he : e ∈ es) : ∃ z, e.evaluate env = .ok z := by
  induction es generalizing zs with
  | nil => exact absurd he List.not_mem_nil
  | cons c es ih =>
    obtain ⟨w, ws, hw, hws, -⟩ := evaluateAll_cons_eq_ok_iff.1 h
    rcases List.mem_cons.1 he with rfl | he
    · exact ⟨w, hw⟩
    · exact ih hws he

theorem exists_of_mem_evaluateAll {z : Complex} (h : evaluateAll env es = .ok zs) (hz : z ∈ zs) :
    ∃ c ∈ es, c.evaluate env = .ok z := by
  induction es generalizing zs with
  | nil =>
    obtain rfl := Except.ok.inj h
    exact absurd hz List.not_mem_nil
  | cons c es ih =>
    obtain ⟨w, ws, hw, hws, rfl⟩ := evaluateAll_cons_eq_ok_iff.1 h
    rcases List.mem_cons.1 hz with rfl | hz
    · exact ⟨c, List.mem_cons_self .., hw⟩
    · obtain ⟨a, ha, hvalue⟩ := ih hws hz
      exact ⟨a, List.mem_cons_of_mem _ ha, hvalue⟩

theorem evaluateAll_eq_error_iff : evaluateAll env es = .error f ↔ ∃ before e after,
    es = before ++ e :: after ∧ (∀ c ∈ before, ∃ z, c.evaluate env = .ok z) ∧ e.evaluate env = .error f := by
  induction es with
  | nil =>
    rw [evaluateAll]
    exact ⟨fun h => absurd h (by simp), fun ⟨before, e, after, h, _⟩ => absurd h (by simp)⟩
  | cons e es ih =>
    rw [evaluateAll_cons_eq_error_iff, ih]
    constructor
    · rintro (h | ⟨w, hw, before, c, after, rfl, hbefore, hc⟩)
      · exact ⟨[], e, es, rfl, by simp, h⟩
      · exact ⟨e :: before, c, after, rfl, List.forall_mem_cons.2 ⟨⟨w, hw⟩, hbefore⟩, hc⟩
    · rintro ⟨before, c, after, hes, hbefore, hc⟩
      cases before with
      | nil =>
        obtain ⟨rfl, rfl⟩ := List.cons.inj hes
        exact .inl hc
      | cons b before =>
        obtain ⟨rfl, rfl⟩ := List.cons.inj hes
        obtain ⟨⟨w, hw⟩, hbefore⟩ := List.forall_mem_cons.1 hbefore
        exact .inr ⟨w, hw, before, c, after, rfl, hbefore, hc⟩

/-! ### Failures -/

/-- Every part of a tree that has a value has one. -/
theorem exists_evaluate_of_mem_nodes {z : Complex} (h : e.evaluate env = .ok z) {n : Expr} (hn : n ∈ e.nodes) :
    ∃ w, n.evaluate env = .ok w := by
  induction e using induction_children generalizing z with
  | h e ih =>
    rw [nodes_eq, List.mem_append, List.mem_flatMap, List.mem_singleton] at hn
    rcases hn with ⟨c, hc, hn⟩ | rfl
    · rw [evaluate_eq] at h
      cases hzs : evaluateAll env e.children with
      | error f =>
        rw [hzs] at h
        exact absurd h (by simp [Except.bind])
      | ok zs =>
        obtain ⟨w, hw⟩ := exists_of_evaluateAll hzs hc
        exact ih c hc hw hn
    · exact ⟨z, h⟩

omit [Elementary] in
/-- Two places of a list are one if neither element stands before the other place. -/
theorem eq_of_append_cons_eq {n n' : Expr} {before before' after after' : List Expr}
    (h : before ++ n :: after = before' ++ n' :: after') (hbefore : ∀ m ∈ before, m ≠ n')
    (hbefore' : ∀ m ∈ before', m ≠ n) : n = n' := by
  rcases List.append_eq_append_iff.1 h with ⟨rest, rfl, hrest⟩ | ⟨rest, rfl, hrest⟩
  · cases rest with
    | nil => exact (List.cons.inj hrest).1
    | cons m rest => exact absurd (List.cons.inj hrest).1.symm (hbefore' m (by simp))
  · cases rest with
    | nil => exact (List.cons.inj hrest).1.symm
    | cons m rest => exact absurd (List.cons.inj hrest).1.symm (hbefore m (by simp))

/-- Every node that is evaluated before the node `n` has a value. -/
def ComesTo (env : Environment) (e n : Expr) : Prop :=
  ∃ before after, e.nodes = before ++ n :: after ∧ ∀ m ∈ before, ∃ z, m.evaluate env = .ok z

theorem ComesTo.mem_nodes {n : Expr} (h : ComesTo env e n) : n ∈ e.nodes := by
  obtain ⟨before, after, hnodes, -⟩ := h
  rw [hnodes]
  exact List.mem_append_right _ (List.mem_cons_self ..)

/-- The node `n` is the first one that fails, and it fails by itself. -/
structure FailsFirst (env : Environment) (e n : Expr) (f : Failure) : Prop where
  comesTo : ComesTo env e n
  operate : ∃ zs, evaluateAll env n.children = .ok zs ∧ n.operate env zs = .error f

namespace FailsFirst

variable {n n' : Expr} {f' : Failure}

theorem evaluate_eq_error (h : FailsFirst env e n f) : n.evaluate env = .error f := by
  obtain ⟨zs, hzs, hf⟩ := h.operate
  rw [evaluate_eq, hzs]
  exact hf

theorem unique (h : FailsFirst env e n f) (h' : FailsFirst env e n' f') : f = f' := by
  obtain ⟨before, after, hnodes, hbefore⟩ := h.comesTo
  obtain ⟨before', after', hnodes', hbefore'⟩ := h'.comesTo
  have hn := h.evaluate_eq_error
  have hn' := h'.evaluate_eq_error
  have hsame : n = n' := by
    refine eq_of_append_cons_eq (hnodes.symm.trans hnodes') (fun m hm => ?_) (fun m hm => ?_)
    · rintro rfl
      obtain ⟨z, hz⟩ := hbefore m hm
      exact absurd (hz.symm.trans hn') (by simp)
    · rintro rfl
      obtain ⟨z, hz⟩ := hbefore' m hm
      exact absurd (hz.symm.trans hn) (by simp)
  subst hsame
  exact Except.error.inj (hn.symm.trans hn')

end FailsFirst

theorem exists_failsFirst (h : e.evaluate env = .error f) : ∃ n, FailsFirst env e n f := by
  induction e using induction_children with
  | h e ih =>
    rw [evaluate_eq] at h
    cases hzs : evaluateAll env e.children with
    | ok zs =>
      rw [hzs] at h
      refine ⟨e, ⟨e.children.flatMap nodes, [], nodes_eq e, fun m hm => ?_⟩, zs, hzs, h⟩
      obtain ⟨c, hc, hm⟩ := List.mem_flatMap.1 hm
      obtain ⟨w, hw⟩ := exists_of_evaluateAll hzs hc
      exact exists_evaluate_of_mem_nodes hw hm
    | error f' =>
      rw [hzs] at h
      obtain rfl : f' = f := Except.error.inj h
      obtain ⟨before, c, after, hchildren, hbefore, hc⟩ := evaluateAll_eq_error_iff.1 hzs
      obtain ⟨n, ⟨l, r, hnodes, hl⟩, hn⟩ := ih c (by rw [hchildren]; simp) hc
      refine ⟨n, ⟨before.flatMap nodes ++ l, r ++ after.flatMap nodes ++ [e], ?_, fun m hm => ?_⟩, hn⟩
      · rw [nodes_eq, hchildren, List.flatMap_append, List.flatMap_cons, hnodes]
        simp only [List.append_assoc, List.cons_append]
      · rcases List.mem_append.1 hm with hm | hm
        · obtain ⟨b, hb, hm⟩ := List.mem_flatMap.1 hm
          obtain ⟨w, hw⟩ := hbefore b hb
          exact exists_evaluate_of_mem_nodes hw hm
        · exact hl m hm

/-- The failure of a tree is that of its first node that fails, in the order of evaluation. -/
theorem evaluate_eq_error_iff : e.evaluate env = .error f ↔ ∃ n, FailsFirst env e n f := by
  refine ⟨exists_failsFirst, fun ⟨n, hn⟩ => ?_⟩
  cases h : e.evaluate env with
  | ok z =>
    obtain ⟨w, hw⟩ := exists_evaluate_of_mem_nodes h hn.comesTo.mem_nodes
    exact absurd (hw.symm.trans hn.evaluate_eq_error) (by simp)
  | error f' =>
    obtain ⟨n', hn'⟩ := exists_failsFirst h
    rw [hn'.unique hn]

end Phasor.Expr
