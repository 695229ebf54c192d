import Phasor.Proofs.Completeness
import Phasor.Proofs.Reading

/-!
# Calls with a wrong number of arguments

The first pass reads calls with any number of arguments, and the second pass hands every function as many trees as it
takes, no matter in which call they were written. So what is refused is decided by the heights of the stack alone, and
wrong numbers can make up for each other: an argument too many in one call may serve a call that lacks one
(`ofTokens_of_any_counts`).
-/

namespace Phasor

open Postfix

namespace Expr

/-- The number of arguments beyond those that the function takes. -/
def surplus : Expr → Nat
  | call f args => args.length - functionArity f
  | _ => 0

/-- The number of arguments that the function takes and does not get. -/
def deficit : Expr → Nat
  | call f args => functionArity f - args.length
  | _ => 0

variable {e : Expr}

theorem length_children_add_deficit {takes : String → Nat → Prop} (h : e.Fits takes) :
    e.children.length + e.deficit = e.item.arity + e.surplus := by
  cases e with
  | lit t => rfl
  | var n => rfl
  | unary op e => rfl
  | binary op l r =>
    rw [item, Item.arity_of_isBinarySymbol h]
    rfl
  | call f args =>
    show args.length + (functionArity f - args.length) = functionArity f + (args.length - functionArity f)
    omega

/-- If one tree is left, then the arguments too many are as many as the missing ones. -/
theorem sum_surplus_eq_sum_deficit {takes : String → Nat → Prop} (he : e.Everywhere (Fits takes))
    (h : height 0 e.postorder = some 1) : (e.nodes.map surplus).sum = (e.nodes.map deficit).sum := by
  have hnode : ∀ n ∈ e.nodes, n.children.length + n.deficit = n.item.arity + n.surplus := fun n hn =>
    length_children_add_deficit (he n hn)
  have hnodes : (e.nodes.map fun n => n.children.length).sum + (e.nodes.map deficit).sum =
      (e.nodes.map fun n => n.item.arity).sum + (e.nodes.map surplus).sum := by
    rw [← List.sum_map_add, ← List.sum_map_add, List.map_congr_left hnode]
  have hoperands : 1 + (e.nodes.map fun n => n.item.arity).sum = e.nodes.length := by
    have hheight := height_eq_some h
    rw [postorder, List.map_map, List.length_map, Nat.zero_add] at hheight
    exact hheight
  have hchildren := sum_length_children e
  omega

theorem sum_eq_zero_iff {count : Expr → Nat} : (e.nodes.map count).sum = 0 ↔ ∀ n ∈ e.nodes, count n = 0 := by
  rw [List.sum_eq_zero_iff_forall_eq_nat, List.forall_mem_map]

end Expr

namespace Grammar

open Phasor.Expr

variable {ts : List String} {e : Expr}

/-- A sentence whose calls have any numbers of arguments gives the tree that lists the same nodes and in which every
function has as many arguments as it takes, if there is such a tree, that is if the heights of the listing work out;
otherwise it is refused. It is refused if the arguments too many are not as many as the missing ones, so wrong numbers
pass only if some calls have too many arguments and others too few. -/
theorem ofTokens_of_any_counts (h : Derives (fun _ _ => True) .sum ts e) :
    (∀ e', ofTokens ts = .ok e' ↔ e'.WellFormed ∧ e'.postorder = e.postorder) ∧
    ((∃ err, ofTokens ts = .error (.parse err)) ↔ height 0 e.postorder ≠ some 1) ∧
    ((e.nodes.map surplus).sum ≠ (e.nodes.map deficit).sum → ∃ err, ofTokens ts = .error (.parse err)) ∧
    ((∃ f args, call f args ∈ e.nodes ∧ args.length ≠ functionArity f) →
      (∀ n ∈ e.nodes, n.surplus = 0) ∨ (∀ n ∈ e.nodes, n.deficit = 0) →
      ∃ err, ofTokens ts = .error (.parse err)) := by
  have harrange : arrange ts = .ok e.postorder := arrange_of_derives h
  have hknown := known_of_arrange harrange
  have hbuild : ofTokens ts = build e.postorder := by rw [ofTokens, harrange]
  have hrefused : (∃ err, ofTokens ts = .error (.parse err)) ↔ height 0 e.postorder ≠ some 1 := by
    rw [ne_eq, ← exists_build_iff hknown, ← hbuild]
    constructor
    · rintro ⟨err, herr⟩ ⟨e', he'⟩
      exact absurd (herr.symm.trans he') (by simp)
    · intro hnone
      cases hts : ofTokens ts with
      | ok e' => exact absurd ⟨e', hts⟩ hnone
      | error f =>
        obtain ⟨err, rfl, -⟩ := ofTokens_eq_error hts
        exact ⟨err, rfl⟩
  have hsums : (e.nodes.map surplus).sum ≠ (e.nodes.map deficit).sum →
      ∃ err, ofTokens ts = .error (.parse err) := fun hne =>
    hrefused.2 fun hheight => hne (sum_surplus_eq_sum_deficit h.fits hheight)
  refine ⟨fun e' => ⟨fun he' => ?_, ?_⟩, hrefused, hsums, ?_⟩
  · obtain ⟨harrange', -⟩ := ofTokens_eq_ok he'
    exact ⟨wellFormed_of_ofTokens he', Except.ok.inj (harrange'.symm.trans harrange)⟩
  · rintro ⟨hwf, hpostorder⟩
    rw [hbuild, ← hpostorder]
    exact build_eq_ok_iff.2 ⟨rfl, hwf.mono fun _ hn => hn.buildable⟩
  · rintro ⟨f, args, hcall, hcount⟩ hside
    refine hsums fun hsum => ?_
    -- one of the two sums is zero, so both are, and the call has neither
    have hzero : (∀ n ∈ e.nodes, n.surplus = 0) ∧ ∀ n ∈ e.nodes, n.deficit = 0 := by
      rw [← sum_eq_zero_iff, ← sum_eq_zero_iff] at hside ⊢
      omega
    have hsurplus : args.length - functionArity f = 0 := hzero.1 _ hcall
    have hdeficit : functionArity f - args.length = 0 := hzero.2 _ hcall
    omega

/-- Too many arguments are refused, although the other call has what it takes. -/
theorem ofTokens_root_with_surplus :
    let ts := ["root", "(", "f", "(", "x", ",", "y", ")", ",", "2", ")"]
    let e : Expr := .call "root" [.call "f" [.var "x", .var "y"], .lit "2"]
    Derives (fun _ _ => True) .sum ts e ∧ ∃ err, ofTokens ts = .error (.parse err) := by
  intro ts e
  have hx : Derives (fun _ _ => True) .sum ["x"] (.var "x") := .sumOfAtom (.name (by decide))
  have hy : Derives (fun _ _ => True) .sum ["y"] (.var "y") := .sumOfAtom (.name (by decide))
  have htwo : Derives (fun _ _ => True) .sum ["2"] (.lit "2") := .sumOfAtom (.number (by decide))
  have hf : Derives (fun _ _ => True) .sum ["f", "(", "x", ",", "y", ")"] (.call "f" [.var "x", .var "y"]) :=
    .sumOfAtom (.callOfTwo (by decide) trivial hx hy)
  have h : Derives (fun _ _ => True) .sum ts e := .sumOfAtom (.callOfTwo (by decide) trivial hf htwo)
  obtain ⟨-, -, -, hside⟩ := ofTokens_of_any_counts h
  exact ⟨h, hside ⟨"f", [.var "x", .var "y"], by decide, by decide⟩ (.inr (by decide))⟩

/-- The argument too many in `sqrt(x, y)` passes for the one that `root` lacks. -/
theorem ofTokens_root_of_sqrt :
    let ts := ["root", "(", "sqrt", "(", "x", ",", "y", ")", ")"]
    let e : Expr := .call "root" [.call "sqrt" [.var "x", .var "y"]]
    Derives (fun _ _ => True) .sum ts e ∧
      (∃ f args, call f args ∈ e.nodes ∧ args.length ≠ functionArity f) ∧
      ofTokens ts = .ok (.call "root" [.var "x", .call "sqrt" [.var "y"]]) := by
  intro ts e
  have hx : Derives (fun _ _ => True) .sum ["x"] (.var "x") := .sumOfAtom (.name (by decide))
  have hy : Derives (fun _ _ => True) .sum ["y"] (.var "y") := .sumOfAtom (.name (by decide))
  have hsqrt : Derives (fun _ _ => True) .sum ["sqrt", "(", "x", ",", "y", ")"] (.call "sqrt" [.var "x", .var "y"]) :=
    .sumOfAtom (.callOfTwo (by decide) trivial hx hy)
  have harg : ∀ a ∈ [(["sqrt", "(", "x", ",", "y", ")"], Expr.call "sqrt" [.var "x", .var "y"])],
      Derives (fun _ _ => True) .sum a.1 a.2 := List.forall_mem_singleton.2 hsqrt
  have h : Derives (fun _ _ => True) .sum ts e :=
    .sumOfAtom (.call (by decide) (List.cons_ne_nil _ _) trivial harg)
  exact ⟨h, ⟨"sqrt", [.var "x", .var "y"], by decide, by decide⟩, rfl⟩

end Grammar

end Phasor
