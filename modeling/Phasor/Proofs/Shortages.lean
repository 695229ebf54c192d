import Phasor.Proofs.FirstFailure
import Phasor.Proofs.Heights

/-!
# Where operands run out

The second pass undoes the listing of a tree, and where it fails the heights say why: an item is the first one that takes
more trees than the items before it have left on the stack (`Lacks`), or none is and the trees that are left are not one
(`build_inverts_postorder`).
-/

namespace Phasor

namespace Item

def isLeaf : Item → Bool
  | mark _ => false
  | _ => true

end Item

/-- The symbols of the table. -/
theorem Operator.isSome_ofSymbol?_iff {s : String} :
    (ofSymbol? s).isSome = true ↔ s = negation ∨ isBinarySymbol s = true := by
  constructor
  · intro h
    unfold ofSymbol? at h
    split at h <;> simp_all [isBinarySymbol, negation]
  · rintro (rfl | h)
    · rfl
    · simp only [isBinarySymbol, List.contains_iff_mem, List.mem_cons, List.not_mem_nil, or_false] at h
      rcases h with rfl | rfl | rfl | rfl | rfl | rfl <;> rfl

namespace Postfix

open Phasor.Expr

/-- The height of the stack after the items: the leaves, less the trees that are taken, and the trees that are put back. -/
def balance (p : List Item) : Int :=
  p.countP Item.isLeaf - (p.map Item.arity).sum + p.countP fun i => !i.isLeaf

/-- The item takes more trees than are left after the items `before`, of `n` trees at the start. -/
def Lacks (n : Int) (before : List Item) (i : Item) : Prop := n + balance before < i.arity

variable {stack stack' : List Expr} {i : Item} {p : List Item} {f : Failure}

theorem balance_cons (i : Item) (p : List Item) : balance (i :: p) = 1 - i.arity + balance p := by
  rw [balance, balance, List.countP_cons, List.countP_cons, List.map_cons, List.sum_cons]
  cases i.isLeaf <;> simp <;> omega

theorem lacks_cons (n : Int) (i : Item) : (fun before => Lacks n (i :: before)) = Lacks (n + (1 - i.arity)) := by
  funext before j
  rw [Lacks, Lacks, balance_cons, add_assoc]

theorem lacks_nil_iff {n : Nat} : Lacks n [] i ↔ n < i.arity := by
  show (n : Int) + 0 < i.arity ↔ n < i.arity
  omega

theorem balance_eq (p : List Item) : balance p = p.length - (p.map Item.arity).sum := by
  induction p with
  | nil => rfl
  | cons i p ih =>
    rw [balance_cons, ih, List.length_cons, List.map_cons, List.sum_cons]
    omega

theorem balance_of_height {n m : Nat} (h : height n p = some m) : (m : Int) = n + balance p := by
  have hsum := height_eq_some h
  rw [balance_eq]
  omega

/-- The height is lost at the first item that lacks operands. -/
theorem exists_height_iff {n : Nat} : (∃ m, height n p = some m) ↔ Nowhere (Lacks n) p := by
  induction p generalizing n with
  | nil => exact iff_of_true ⟨n, rfl⟩ nowhere_nil
  | cons i p ih =>
    rw [height, nowhere_cons, lacks_nil_iff, Nat.not_lt, lacks_cons]
    by_cases harity : i.arity ≤ n
    · have hheight : (n : Int) + (1 - i.arity) = (n - i.arity + 1 : Nat) := by omega
      rw [if_pos harity, ih, hheight]
      simp only [harity, true_and]
    · rw [if_neg harity]
      simp only [harity, false_and, reduceCtorEq, exists_false]

/-- A run over the items fails at the first one that lacks operands. -/
theorem reduceAll_eq_error_iff (hp : ∀ i ∈ p, i.Known) : reduceAll stack p = .error f ↔
    ∃ before i, FirstAt (Lacks stack.length) p before i ∧
      ∃ c, i.consumer? = some c ∧ f = .parse (.tooFewOperands c) := by
  induction p generalizing stack with
  | nil =>
    refine iff_of_false (by simp [reduceAll]) ?_
    rintro ⟨before, i, hfirst, -⟩
    exact not_firstAt_nil hfirst
  | cons i p ih =>
    obtain ⟨hi, hp⟩ := List.forall_mem_cons.1 hp
    rw [exists_firstAt_cons, reduceAll]
    by_cases harity : i.arity ≤ stack.length
    · obtain ⟨e, he⟩ := reduce_of_arity_le hi harity
      have hpassed : ¬ Lacks stack.length [] i := lacks_nil_iff.not.2 (Nat.not_lt.2 harity)
      have hlength : ((e :: stack.drop i.arity).length : Int) = stack.length + (1 - i.arity) := by
        rw [List.length_cons, List.length_drop]
        omega
      simp only [hpassed, false_and, not_false_iff, true_and, false_or, he]
      rw [ih hp, hlength, ← lacks_cons]
    · obtain ⟨c, hc, hreduce⟩ := reduce_of_lt_arity hi (Nat.not_le.1 harity)
      have hlacks : Lacks stack.length [] i := lacks_nil_iff.2 (Nat.not_le.1 harity)
      simp only [hlacks, true_and, not_true, false_and, or_false, hreduce, hc, Option.some.injEq, exists_eq_left',
        Except.error.injEq]
      exact eq_comm

theorem build_eq_error_iff (hp : ∀ i ∈ p, i.Known) : build p = .error f ↔
    (∃ before i, FirstAt (Lacks 0) p before i ∧ ∃ c, i.consumer? = some c ∧ f = .parse (.tooFewOperands c)) ∨
      (Nowhere (Lacks 0) p ∧ balance p ≠ 1 ∧ f = .parse .notOneExpression) := by
  rcases reduceAll_cases [] hp with ⟨stack, hstack, hheight⟩ | ⟨⟨c, hc⟩, hheight⟩
  · have hnowhere : Nowhere (Lacks 0) p := exists_height_iff.1 ⟨_, hheight⟩
    have hlength : (stack.length : Int) = 0 + balance p := balance_of_height hheight
    have hbuild : build p = .error f ↔ stack.length ≠ 1 ∧ f = .parse .notOneExpression := by
      rw [build, hstack]
      rcases stack with _ | ⟨e, _ | ⟨e', stack⟩⟩
      · simp [eq_comm]
      · simp
      · simp [eq_comm]
    rw [hbuild]
    constructor
    · rintro ⟨hone, hf⟩
      exact .inr ⟨hnowhere, by omega, hf⟩
    · rintro (⟨before, i, hfirst, -⟩ | ⟨-, hone, hf⟩)
      · exact absurd hfirst (nowhere_iff.1 hnowhere before i)
      · exact ⟨by omega, hf⟩
  · have hlacks : ¬ Nowhere (Lacks 0) p := fun h => by
      obtain ⟨m, hm⟩ := exists_height_iff.2 h
      exact absurd (hm.symm.trans hheight) (by simp)
    have hbuild : build p = .error f ↔ reduceAll [] p = .error f := by
      rw [build, hc]
      simp only [Except.error.injEq]
    rw [hbuild, reduceAll_eq_error_iff hp]
    exact (or_iff_left fun h => hlacks h.1).symm

theorem known_of_symbols (hsymbol : ∀ s, .mark (.op s) ∈ p → (Operator.ofSymbol? s).isSome = true)
    (hparen : .mark .paren ∉ p) : ∀ i ∈ p, i.Known := by
  intro i hi
  cases i with
  | lit t => trivial
  | var n => trivial
  | mark m =>
    cases m with
    | paren => exact hparen hi
    | op s => exact Operator.isSome_ofSymbol?_iff.1 (hsymbol s hi)
    | fn n => trivial

/-- The second pass undoes the listing in post-order: it gives the tree `e` exactly for the listing of `e`, where each
function of `e` has as many arguments as it takes, each negation is a minus and each other operator is one of the table
for two operands. Where it fails, the heights decide: the first item that takes more trees than there are lacks operands,
and if there is none, the trees at the end are not one. -/
theorem build_inverts_postorder (hsymbol : ∀ s, .mark (.op s) ∈ p → (Operator.ofSymbol? s).isSome = true)
    (hparen : .mark .paren ∉ p) :
    (∀ e, build p = .ok e ↔ p = e.postorder ∧ e.Everywhere Buildable) ∧
    ∀ f, build p = .error f ↔
      (∃ before i, FirstAt (Lacks 0) p before i ∧ ∃ c, i.consumer? = some c ∧ f = .parse (.tooFewOperands c)) ∨
      (Nowhere (Lacks 0) p ∧ balance p ≠ 1 ∧ f = .parse .notOneExpression) :=
  ⟨fun _ => build_eq_ok_iff, fun _ => build_eq_error_iff (known_of_symbols hsymbol hparen)⟩

/-- The operands keep their order; a sum of one operand lacks the other, whatever follows it. -/
theorem build_root_of_difference :
    let p : List Item := [.var "x", .lit "2", .mark (.op "-"), .mark (.fn "sqrt"), .var "y", .mark (.fn "root")]
    let q : List Item := [.lit "1", .mark (.op "u-")]
    (∀ s, .mark (.op s) ∈ p → (Operator.ofSymbol? s).isSome = true) ∧ .mark .paren ∉ p ∧
      build p = .ok (.call "root" [.call "sqrt" [.binary "-" (.var "x") (.lit "2")], .var "y"]) ∧
      FirstAt (Lacks 0) (q ++ [.mark (.op "+"), .lit "2"]) q (.mark (.op "+")) ∧
      build (q ++ [.mark (.op "+"), .lit "2"]) = .error (.parse (.tooFewOperands (.operator "+"))) := by
  intro p q
  have hsymbol : ∀ s, .mark (.op s) ∈ p → (Operator.ofSymbol? s).isSome = true := by
    intro s hs
    obtain rfl : s = "-" := by simpa [p] using hs
    rfl
  have hsymbol' : ∀ s, .mark (.op s) ∈ q ++ [.mark (.op "+"), .lit "2"] → (Operator.ofSymbol? s).isSome = true := by
    intro s hs
    obtain rfl | rfl : s = "u-" ∨ s = "+" := by simpa [q] using hs
    · rfl
    · rfl
  have hfirst : FirstAt (Lacks 0) (q ++ [.mark (.op "+"), .lit "2"]) q (.mark (.op "+")) :=
    ⟨⟨[.lit "2"], rfl⟩, by unfold Lacks; decide, exists_height_iff.1 ⟨1, rfl⟩⟩
  obtain ⟨hbuild, -⟩ := build_inverts_postorder (p := p) hsymbol (by decide)
  obtain ⟨-, hfails⟩ := build_inverts_postorder hsymbol' (by decide)
  have htree : (Expr.call "root" [.call "sqrt" [.binary "-" (.var "x") (.lit "2")], .var "y"]).WellFormed := by decide
  exact ⟨hsymbol, by decide, (hbuild _).2 ⟨rfl, htree.mono fun _ hn => hn.buildable⟩, hfirst,
    (hfails _).2 (.inl ⟨q, _, hfirst, _, rfl, rfl⟩)⟩

/-- The symbol of negation is in the table, but a node of two operands with it is not what its listing builds. -/
theorem build_listing_of_binary_negation :
    let e : Expr := .binary Operator.negation (.var "x") (.var "y")
    (Operator.ofSymbol? Operator.negation).isSome = true ∧
      e.postorder = [.var "x", .var "y", .mark (.op Operator.negation)] ∧
      build e.postorder = .error (.parse .notOneExpression) ∧ build e.postorder ≠ .ok e := by
  intro e
  have hfails : build e.postorder = .error (.parse .notOneExpression) := rfl
  refine ⟨rfl, rfl, hfails, ?_⟩
  rw [hfails]
  simp

end Postfix

end Phasor
