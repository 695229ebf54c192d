import Mathlib.Data.List.Basic
import Phasor.Expr
import Phasor.Token

/-!
# The nodes of a tree

`Expr.nodes` lists the nodes in post-order: below each node its children from left to right, then the
node itself. What is said of all nodes of a tree, such as `Expr.WellFormed`, and what is counted over
them, such as its size, is said and counted over that list. Since `Expr.children` is one function of a
node, most inductions need no case for each kind of node (`Expr.induction_children`).
-/

namespace Phasor.Expr

/-- Induction with the hypothesis for every child of a node. -/
@[elab_as_elim]
theorem induction_children {motive : Expr → Prop} (h : ∀ e, (∀ c ∈ e.children, motive c) → motive e)
    (e : Expr) : motive e := by
  refine Expr.rec (motive_1 := motive) (motive_2 := fun args => ∀ a ∈ args, motive a) ?_ ?_ ?_ ?_ ?_
    ?_ ?_ e
  · exact fun t => h _ (by simp [children])
  · exact fun n => h _ (by simp [children])
  · exact fun op e ih => h _ (by simpa [children] using ih)
  · exact fun op l r ihl ihr => h _ (by simp [children, ihl, ihr])
  · exact fun n args ih => h _ ih
  · exact fun a ha => absurd ha List.not_mem_nil
  · intro a args ha hargs b hb
    rcases List.mem_cons.1 hb with rfl | hb
    · exact ha
    · exact hargs b hb

mutual

def nodes : Expr → List Expr
  | lit t => [lit t]
  | var n => [var n]
  | unary op e => e.nodes ++ [unary op e]
  | binary op l r => l.nodes ++ r.nodes ++ [binary op l r]
  | call n args => nodesAll args ++ [call n args]

def nodesAll : List Expr → List Expr
  | [] => []
  | e :: es => e.nodes ++ nodesAll es

end

theorem nodesAll_eq (es : List Expr) : nodesAll es = es.flatMap nodes := by
  induction es with
  | nil => rfl
  | cons e es ih => rw [nodesAll, ih, List.flatMap_cons]

theorem nodes_eq (e : Expr) : e.nodes = e.children.flatMap nodes ++ [e] := by
  cases e <;> simp [nodes, children, nodesAll_eq]

/-! ### Counting nodes -/

mutual

theorem length_nodes : (e : Expr) → e.nodes.length = e.size
  | lit _ => rfl
  | var _ => rfl
  | unary _ e => by
    rw [nodes, size, List.length_append, List.length_singleton, length_nodes e]
    omega
  | binary _ l r => by
    rw [nodes, size, List.length_append, List.length_append, List.length_singleton, length_nodes l,
      length_nodes r]
    omega
  | call _ args => by
    rw [nodes, size, List.length_append, List.length_singleton, length_nodesAll args]
    omega

theorem length_nodesAll : (es : List Expr) → (nodesAll es).length = sizeAll es
  | [] => rfl
  | e :: es => by rw [nodesAll, sizeAll, List.length_append, length_nodes e, length_nodesAll es]

end

/-- The name of a variable. -/
def varName? : Expr → Option String
  | var n => some n
  | _ => none

theorem occurrencesAll_eq (es : List Expr) : occurrencesAll es = es.flatMap occurrences := by
  induction es with
  | nil => rfl
  | cons e es ih => rw [occurrencesAll, ih, List.flatMap_cons]

theorem occurrences_eq (e : Expr) :
    e.occurrences = e.children.flatMap occurrences ++ e.varName?.toList := by
  cases e <;> simp [occurrences, children, varName?, occurrencesAll_eq]

theorem filterMap_varName?_nodes (e : Expr) : e.nodes.filterMap varName? = e.occurrences := by
  induction e using induction_children with
  | h e ih =>
    have hnode : [e].filterMap varName? = e.varName?.toList := by cases e <;> rfl
    rw [nodes_eq, occurrences_eq, List.filterMap_append, List.filterMap_flatMap, List.flatMap_congr ih,
      hnode]

theorem mem_variables {n : String} {e : Expr} : n ∈ e.variables ↔ var n ∈ e.nodes := by
  rw [Expr.variables, Names.mem_sorted, ← filterMap_varName?_nodes, List.mem_filterMap]
  constructor
  · rintro ⟨m, hm, hn⟩
    cases m with
    | var n' =>
      obtain rfl : n' = n := Option.some.inj hn
      exact hm
    | lit t => exact absurd hn (by simp [varName?])
    | unary op e => exact absurd hn (by simp [varName?])
    | binary op l r => exact absurd hn (by simp [varName?])
    | call f args => exact absurd hn (by simp [varName?])
  · exact fun h => ⟨var n, h, rfl⟩

/-! ### Properties of all nodes -/

def Everywhere (P : Expr → Prop) (e : Expr) : Prop := ∀ n ∈ e.nodes, P n

instance {P : Expr → Prop} [DecidablePred P] : DecidablePred (Everywhere P) :=
  fun e => inferInstanceAs (Decidable (∀ n ∈ e.nodes, P n))

theorem everywhere_iff {P : Expr → Prop} {e : Expr} :
    e.Everywhere P ↔ P e ∧ ∀ c ∈ e.children, c.Everywhere P := by
  unfold Everywhere
  rw [nodes_eq, List.forall_mem_append, List.forall_mem_singleton, and_comm]
  simp only [List.mem_flatMap]
  refine and_congr_right fun _ => ⟨fun h c hc m hm => h m ⟨c, hc, hm⟩, ?_⟩
  rintro h m ⟨c, hc, hm⟩
  exact h c hc m hm

theorem Everywhere.mono {P Q : Expr → Prop} {e : Expr} (h : e.Everywhere P) (hPQ : ∀ n, P n → Q n) :
    e.Everywhere Q :=
  fun n hn => hPQ n (h n hn)

/-! ### Well-formed trees -/

/-- The node itself is as it should be, whatever its operands are. -/
def Proper : Expr → Prop
  | lit t => Token.isNumber t = true
  | var n => Token.isIdentifier n = true
  | unary op _ => op = "-"
  | binary op _ _ => isBinarySymbol op = true
  | call n args => Token.isIdentifier n = true ∧ args.length = functionArity n

instance : DecidablePred Proper
  | lit t => inferInstanceAs (Decidable (Token.isNumber t = true))
  | var n => inferInstanceAs (Decidable (Token.isIdentifier n = true))
  | unary op _ => inferInstanceAs (Decidable (op = "-"))
  | binary op _ _ => inferInstanceAs (Decidable (isBinarySymbol op = true))
  | call n args => inferInstanceAs (Decidable (_ ∧ args.length = functionArity n))

def WellFormed (e : Expr) : Prop := e.Everywhere Proper

instance : DecidablePred WellFormed := fun e => inferInstanceAs (Decidable (e.Everywhere Proper))

end Phasor.Expr
