import Mathlib.Algebra.BigOperators.Group.List.Basic
import Mathlib.Algebra.Ring.Nat
import Phasor.Proofs.Postorder

/-!
# Heights of the stack of trees

Whether a listing can be built does not depend on the trees that stand on the stack but on how many there are.
`height` follows that number through a listing, and it is lost where operands run out. The height decides the
outcome of `build` (`build_cases`).
-/

namespace Phasor

namespace Item

/-- The number of operands that the item takes off the stack. -/
def arity : Item → Nat
  | mark (.fn n) => functionArity n
  | mark (.op s) => if s = Operator.negation then 1 else 2
  | _ => 0

/-- What lacks operands if the item finds too few of them. -/
def consumer? : Item → Option Consumer
  | mark (.fn n) => some (.function n)
  | mark (.op s) => some (.operator s)
  | _ => none

/-- An operator is one of the table, and no parenthesis is left; texts and names may be any. -/
def Known : Item → Prop
  | mark (.op s) => s = Operator.negation ∨ isBinarySymbol s = true
  | mark .paren => False
  | _ => True

theorem arity_of_isBinarySymbol {s : String} (h : isBinarySymbol s = true) : arity (.mark (.op s)) = 2 :=
  if_neg (Postfix.negation_ne_of_isBinarySymbol h)

end Item

namespace Postfix

/-- The height of the stack after the items, as long as each finds the operands that it takes. -/
def height (n : Nat) : List Item → Option Nat
  | [] => some n
  | i :: p => if i.arity ≤ n then height (n - i.arity + 1) p else none

variable {stack : List Expr} {i : Item} {p : List Item} {n m : Nat}

/-- Every item puts one tree on the stack in place of its operands. -/
theorem height_eq_some (h : height n p = some m) : m + (p.map Item.arity).sum = n + p.length := by
  induction p generalizing n with
  | nil =>
    obtain rfl := Option.some.inj h
    rfl
  | cons i p ih =>
    rw [height] at h
    split at h
    · have hrest := ih h
      rw [List.map_cons, List.sum_cons, List.length_cons]
      omega
    · exact absurd h (by simp)

/-! ### Heights decide -/

theorem reduce_of_arity_le (hi : i.Known) (h : i.arity ≤ stack.length) :
    ∃ e, reduce stack i = .ok (e :: stack.drop i.arity) := by
  cases i with
  | lit t => exact ⟨_, rfl⟩
  | var n => exact ⟨_, rfl⟩
  | mark m =>
    cases m with
    | paren => exact absurd hi id
    | fn n => exact ⟨_, if_neg (Nat.not_lt.2 h)⟩
    | op s =>
      rcases hi with rfl | hs
      · obtain ⟨e, stack, rfl⟩ := List.exists_cons_of_length_pos (show 0 < stack.length from h)
        exact ⟨_, rfl⟩
      · have hne := negation_ne_of_isBinarySymbol hs
        rw [Item.arity_of_isBinarySymbol hs] at h ⊢
        match stack, h with
        | r :: l :: stack, _ => exact ⟨.binary s l r, by simp [reduce, hne, hs]⟩

theorem reduce_of_lt_arity (hi : i.Known) (h : stack.length < i.arity) :
    ∃ c, i.consumer? = some c ∧ reduce stack i = .error (.parse (.tooFewOperands c)) := by
  cases i with
  | lit t => exact absurd h (Nat.not_lt_zero _)
  | var n => exact absurd h (Nat.not_lt_zero _)
  | mark m =>
    cases m with
    | paren => exact absurd hi id
    | fn n => exact ⟨_, rfl, if_pos h⟩
    | op s =>
      rcases hi with rfl | hs
      · obtain rfl := List.length_eq_zero_iff.1 (Nat.lt_one_iff.1 h)
        exact ⟨_, rfl, rfl⟩
      · have hne := negation_ne_of_isBinarySymbol hs
        rw [Item.arity_of_isBinarySymbol hs] at h
        match stack, h with
        | [], _ | [_], _ => exact ⟨.operator s, rfl, by simp [reduce, hne, hs]⟩

theorem reduceAll_cases (stack : List Expr) (hp : ∀ i ∈ p, i.Known) :
    (∃ stack', reduceAll stack p = .ok stack' ∧ height stack.length p = some stack'.length) ∨
      (∃ c, reduceAll stack p = .error (.parse (.tooFewOperands c))) ∧ height stack.length p = none := by
  induction p generalizing stack with
  | nil => exact .inl ⟨stack, rfl, rfl⟩
  | cons i p ih =>
    obtain ⟨hi, hp⟩ := List.forall_mem_cons.1 hp
    by_cases harity : i.arity ≤ stack.length
    · obtain ⟨e, he⟩ := reduce_of_arity_le hi harity
      have hlength : (e :: stack.drop i.arity).length = stack.length - i.arity + 1 := by
        rw [List.length_cons, List.length_drop]
      have hrest := ih (e :: stack.drop i.arity) hp
      rw [hlength] at hrest
      rw [reduceAll, he, height, if_pos harity]
      exact hrest
    · obtain ⟨c, -, hc⟩ := reduce_of_lt_arity hi (Nat.not_le.1 harity)
      rw [reduceAll, hc, height, if_neg harity]
      exact .inr ⟨⟨c, rfl⟩, rfl⟩

theorem build_cases (hp : ∀ i ∈ p, i.Known) :
    (∃ e, build p = .ok e) ∧ height 0 p = some 1 ∨
    (∃ c, build p = .error (.parse (.tooFewOperands c))) ∧ height 0 p = none ∨
    build p = .error (.parse .notOneExpression) ∧ ∃ m, m ≠ 1 ∧ height 0 p = some m := by
  unfold build
  rcases reduceAll_cases [] hp with ⟨stack, hstack, hheight⟩ | ⟨⟨c, hc⟩, hheight⟩
  · rw [hstack]
    match stack, hheight with
    | [e], hheight => exact .inl ⟨⟨e, rfl⟩, hheight⟩
    | [], hheight => exact .inr (.inr ⟨rfl, 0, Nat.zero_ne_one, hheight⟩)
    | e :: e' :: stack, hheight => exact .inr (.inr ⟨rfl, _, by simp, hheight⟩)
  · rw [hc]
    exact .inr (.inl ⟨⟨c, rfl⟩, hheight⟩)

theorem exists_build_iff (hp : ∀ i ∈ p, i.Known) : (∃ e, build p = .ok e) ↔ height 0 p = some 1 := by
  rcases build_cases hp with ⟨he, hheight⟩ | ⟨⟨c, hc⟩, hheight⟩ | ⟨herror, m, hm, hheight⟩
  · exact ⟨fun _ => hheight, fun _ => he⟩
  · rw [hc, hheight]
    simp
  · rw [herror, hheight]
    simp [hm]

theorem build_eq_error {f : Failure} (hp : ∀ i ∈ p, i.Known) (h : build p = .error f) :
    (∃ c, f = .parse (.tooFewOperands c)) ∨ f = .parse .notOneExpression := by
  rcases build_cases hp with ⟨⟨e, he⟩, -⟩ | ⟨⟨c, hc⟩, -⟩ | ⟨herror, -⟩
  · rw [he] at h
    exact absurd h (by simp)
  · rw [hc] at h
    exact .inl ⟨c, (Except.error.inj h).symm⟩
  · rw [herror] at h
    exact .inr (Except.error.inj h).symm

end Postfix

/-! ### Numbers of operands -/

namespace Expr

theorem sum_length_children_flatMap {es : List Expr}
    (h : ∀ e ∈ es, (e.nodes.map fun n => n.children.length).sum + 1 = e.nodes.length) :
    ((es.flatMap nodes).map fun n => n.children.length).sum + es.length = (es.flatMap nodes).length := by
  induction es with
  | nil => rfl
  | cons e es ih =>
    obtain ⟨he, hes⟩ := List.forall_mem_cons.1 h
    have hrest := ih hes
    rw [List.flatMap_cons, List.map_append, List.sum_append, List.length_append, List.length_cons]
    omega

/-- Every node but the root is the child of one node. -/
theorem sum_length_children (e : Expr) : (e.nodes.map fun n => n.children.length).sum + 1 = e.nodes.length := by
  induction e using induction_children with
  | h e ih =>
    have hbelow := sum_length_children_flatMap ih
    rw [nodes_eq, List.map_append, List.sum_append, List.length_append, List.map_singleton, List.sum_singleton,
      List.length_singleton]
    omega

end Expr

end Phasor
