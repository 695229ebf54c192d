import Phasor.Postfix
import Phasor.Proofs.Nodes

/-!
# Trees and their postfix listing

`Postfix.build` undoes `Expr.postorder`: it returns a tree exactly for the listing of that tree
(`build_eq_ok_iff`). One item takes the children of one node off the stack and puts the node there
(`reduce_eq_ok_iff`), so the stack read from the bottom always lists the items that are gone
(`Lists`).
-/

namespace Phasor

namespace Expr

/-- The item of the node alone. -/
def item : Expr → Item
  | lit t => .lit t
  | var n => .var n
  | unary _ _ => .mark (.op Operator.negation)
  | binary op _ _ => .mark (.op op)
  | call n _ => .mark (.fn n)

/-- The items of the nodes in post-order, negation written apart from subtraction. -/
def postorder (e : Expr) : List Item := e.nodes.map item

theorem postorder_eq (e : Expr) : e.postorder = e.children.flatMap postorder ++ [e.item] := by
  unfold postorder
  rw [nodes_eq, List.map_append, List.map_flatMap, List.map_singleton]

@[simp] theorem postorder_unary (op : String) (e : Expr) :
    (unary op e).postorder = e.postorder ++ [.mark (.op Operator.negation)] := by
  rw [postorder_eq, children, List.flatMap_singleton, item]

@[simp] theorem postorder_binary (op : String) (l r : Expr) :
    (binary op l r).postorder = l.postorder ++ r.postorder ++ [.mark (.op op)] := by
  rw [postorder_eq, children, List.flatMap_cons, List.flatMap_singleton, item]

@[simp] theorem postorder_call (n : String) (args : List Expr) :
    (call n args).postorder = args.flatMap postorder ++ [.mark (.fn n)] := by
  rw [postorder_eq, children, item]

/-- What the operators and the numbers of operands of a node that is built have to be. -/
def Buildable : Expr → Prop
  | unary op _ => op = "-"
  | binary op _ _ => isBinarySymbol op = true
  | call n args => args.length = functionArity n
  | _ => True

theorem Proper.buildable {e : Expr} (h : e.Proper) : e.Buildable := by
  cases e with
  | lit t => trivial
  | var n => trivial
  | unary op e => exact h
  | binary op l r => exact h
  | call n args => exact h.2

end Expr

namespace Postfix

open Phasor.Expr

theorem negation_ne_of_isBinarySymbol {s : String} (h : isBinarySymbol s = true) :
    s ≠ Operator.negation := by
  rintro rfl
  exact absurd h (by decide)

/-- An item replaces the children of one node by that node. -/
theorem reduce_eq_ok_iff {stack stack' : List Expr} {i : Item} : reduce stack i = .ok stack' ↔
    ∃ e rest, e.Buildable ∧ e.item = i ∧ stack = e.children.reverse ++ rest ∧ stack' = e :: rest := by
  constructor
  · intro h
    unfold reduce at h
    split at h
    · obtain rfl := Except.ok.inj h
      exact ⟨.lit _, stack, trivial, rfl, rfl, rfl⟩
    · obtain rfl := Except.ok.inj h
      exact ⟨.var _, stack, trivial, rfl, rfl, rfl⟩
    · exact absurd h (by simp)
    · rename_i n
      dsimp only at h
      split at h
      · exact absurd h (by simp)
      · rename_i hlen
        obtain rfl := Except.ok.inj h
        refine ⟨.call n (stack.take (functionArity n)).reverse, stack.drop (functionArity n), ?_, rfl, ?_, rfl⟩
        · simp only [Buildable, List.length_reverse, List.length_take]; omega
        · simp [children]
    · rename_i s
      split at h
      · split at h
        · obtain rfl := Except.ok.inj h
          exact ⟨.unary "-" _, _, rfl, by rw [item, ‹s = _›], rfl, rfl⟩
        · exact absurd h (by simp)
      · split at h
        · split at h
          · obtain rfl := Except.ok.inj h
            exact ⟨.binary s _ _, _, ‹_›, rfl, rfl, rfl⟩
          · exact absurd h (by simp)
        · exact absurd h (by simp)
  · rintro ⟨e, rest, he, rfl, rfl, rfl⟩
    cases e with
    | lit t => rfl
    | var n => rfl
    | unary op e => obtain rfl : op = "-" := he; rfl
    | binary op l r =>
      have hop : isBinarySymbol op = true := he
      simp [reduce, item, children, negation_ne_of_isBinarySymbol hop, hop]
    | call n args =>
      have hlen : args.length = functionArity n := he
      simp [reduce, item, children, ← hlen]

theorem reduceAll_append {stack stack' : List Expr} {p : List Item} (h : reduceAll stack p = .ok stack')
    (q : List Item) : reduceAll stack (p ++ q) = reduceAll stack' q := by
  induction p generalizing stack with
  | nil => obtain rfl := Except.ok.inj h; rfl
  | cons i p ih =>
    rw [reduceAll] at h
    rw [List.cons_append, reduceAll]
    split at h
    · exact absurd h (by simp)
    · exact ih h

/-! ### From trees to listings and back -/

theorem reduceAll_flatMap_postorder {es : List Expr}
    (h : ∀ e ∈ es, ∀ stack, reduceAll stack e.postorder = .ok (e :: stack)) (stack : List Expr) :
    reduceAll stack (es.flatMap postorder) = .ok (es.reverse ++ stack) := by
  induction es generalizing stack with
  | nil => rfl
  | cons e es ih =>
    obtain ⟨he, hes⟩ := List.forall_mem_cons.1 h
    rw [List.flatMap_cons, reduceAll_append (he stack), ih hes, List.reverse_cons, List.append_assoc]
    rfl

theorem reduceAll_postorder {e : Expr} (h : e.Everywhere Buildable) (stack : List Expr) :
    reduceAll stack e.postorder = .ok (e :: stack) := by
  induction e using induction_children generalizing stack with
  | h e ih =>
    obtain ⟨he, hchildren⟩ := everywhere_iff.1 h
    have hreduce : reduce (e.children.reverse ++ stack) e.item = .ok (e :: stack) :=
      reduce_eq_ok_iff.2 ⟨e, stack, he, rfl, rfl, rfl⟩
    rw [postorder_eq, reduceAll_append
      (reduceAll_flatMap_postorder (fun c hc stack => ih c hc (hchildren c hc) stack) stack)]
    simp only [reduceAll, hreduce]

/-- The stack, read from the bottom, lists the items `p`. -/
structure Lists (stack : List Expr) (p : List Item) : Prop where
  items : stack.reverse.flatMap postorder = p
  buildable : ∀ e ∈ stack, e.Everywhere Buildable

theorem Lists.reduce {stack stack' : List Expr} {p : List Item} {i : Item} (h : Lists stack p)
    (hi : reduce stack i = .ok stack') : Lists stack' (p ++ [i]) := by
  obtain ⟨e, rest, he, rfl, rfl, rfl⟩ := reduce_eq_ok_iff.1 hi
  obtain ⟨hitems, hbuildable⟩ := h
  refine ⟨?_, ?_⟩
  · rw [← hitems, List.reverse_append, List.reverse_reverse, List.flatMap_append, List.reverse_cons,
      List.flatMap_append, List.flatMap_singleton, postorder_eq, List.append_assoc]
  · refine List.forall_mem_cons.2 ⟨everywhere_iff.2 ⟨he, fun c hc => ?_⟩, fun c hc => ?_⟩
    · exact hbuildable c (List.mem_append_left _ (List.mem_reverse.2 hc))
    · exact hbuildable c (List.mem_append_right _ hc)

theorem Lists.reduceAll {stack stack' : List Expr} {p q : List Item} (h : Lists stack p)
    (hq : reduceAll stack q = .ok stack') : Lists stack' (p ++ q) := by
  induction q generalizing stack p with
  | nil =>
    obtain rfl := Except.ok.inj hq
    rwa [List.append_nil]
  | cons i q ih =>
    rw [Postfix.reduceAll] at hq
    split at hq
    · exact absurd hq (by simp)
    · rename_i hi
      have := ih (h.reduce hi) hq
      rwa [List.append_assoc] at this

theorem build_eq_ok_iff {p : List Item} {e : Expr} :
    build p = .ok e ↔ p = e.postorder ∧ e.Everywhere Buildable := by
  constructor
  · intro h
    unfold build at h
    split at h
    · exact absurd h (by simp)
    · rename_i e' hp
      obtain rfl : e = e' := (Except.ok.inj h).symm
      have hl : Lists [e] ([] ++ p) := Lists.reduceAll ⟨rfl, by simp⟩ hp
      refine ⟨?_, hl.buildable e (List.mem_singleton_self e)⟩
      have := hl.items
      rw [List.nil_append] at this
      rw [← this, List.reverse_singleton, List.flatMap_singleton]
    · exact absurd h (by simp)
  · rintro ⟨rfl, he⟩
    rw [build, reduceAll_postorder he]

end Postfix
end Phasor
