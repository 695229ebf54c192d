import Mathlib.Data.List.Perm.Basic
import Phasor.Proofs.Places
import Phasor.Proofs.Steps

/-!
# Nothing is lost, doubled or reordered

The nodes of a tree that is read are the tokens of the text. A step carries the item of its token over
from the text to the state (`Postfix.Carries`): the output and the waiting marks together gain just that
item, and the leaves of the output keep their order. So the listing that is built has the items of the
tokens, and `Postfix.build_eq_ok_iff` turns it into the nodes of the tree.
-/

namespace Phasor

/-! ### Items of a state -/

namespace Postfix

/-- The items of the marks, parentheses left out. -/
def waiting (marks : List Mark) : List Item := (marks.filter (· != .paren)).map .mark

@[simp] theorem waiting_append (marks marks' : List Mark) :
    waiting (marks ++ marks') = waiting marks ++ waiting marks' := by
  simp [waiting]

@[simp] theorem waiting_paren (marks : List Mark) : waiting (.paren :: marks) = waiting marks := rfl

theorem waiting_cons {m : Mark} (h : m ≠ .paren) (marks : List Mark) :
    waiting (m :: marks) = .mark m :: waiting marks := by
  have hkept : (m :: marks).filter (· != .paren) = m :: marks.filter (· != .paren) :=
    List.filter_cons_of_pos (by simpa using h)
  rw [waiting, hkept, List.map_cons]
  rfl

theorem waiting_of_not_mem {marks : List Mark} (h : .paren ∉ marks) : waiting marks = marks.map .mark := by
  have hkept : marks.filter (· != .paren) = marks :=
    List.filter_eq_self.2 fun m hm => bne_iff_ne.2 fun hmp => h (hmp ▸ hm)
  rw [waiting, hkept]

theorem filterMap_leaf?_mark (marks : List Mark) : (marks.map Item.mark).filterMap Item.leaf? = [] := by
  simp [List.filterMap_map, Function.comp_def, Item.leaf?]

/-- The output and the marks that wait. -/
def State.content (s : State) : List Item := s.output ++ waiting s.marks

/-- The state `s'` has the items `is` on top of those of `s`. -/
structure Carries (s : State) (is : List Item) (s' : State) : Prop where
  content : s'.content.Perm (s.content ++ is)
  leaves : s'.output.filterMap Item.leaf? = s.output.filterMap Item.leaf? ++ is.filterMap Item.leaf?

namespace Carries

variable {s s' s'' : State} {is js out : List Item} {marks popped : List Mark} {b b' : Bool}

theorem refl (s : State) : Carries s [] s := ⟨by simp, by simp⟩

theorem trans (h : Carries s is s') (h' : Carries s' js s'') : Carries s (is ++ js) s'' := by
  refine ⟨?_, ?_⟩
  · rw [← List.append_assoc]
    exact h'.content.trans (h.content.append_right js)
  · rw [h'.leaves, h.leaves, List.filterMap_append, List.append_assoc]

/-- An item goes to the output. -/
theorem emit (i : Item) : Carries ⟨out, marks, b⟩ [i] ⟨out ++ [i], marks, b'⟩ := by
  refine ⟨?_, List.filterMap_append⟩
  show (out ++ [i] ++ waiting marks).Perm (out ++ waiting marks ++ [i])
  rw [List.append_assoc, List.append_assoc]
  exact List.perm_append_comm.append_left out

theorem push {m : Mark} (hm : m ≠ .paren) : Carries ⟨out, marks, b⟩ [.mark m] ⟨out, m :: marks, b'⟩ := by
  refine ⟨?_, by simp [Item.leaf?]⟩
  show (out ++ waiting (m :: marks)).Perm (out ++ waiting marks ++ [.mark m])
  rw [waiting_cons hm, List.append_assoc]
  exact (List.perm_append_singleton _ _).symm.append_left out

theorem pushParen : Carries ⟨out, marks, b⟩ [] ⟨out, .paren :: marks, b'⟩ :=
  ⟨by simp [State.content], by simp⟩

theorem popParen : Carries ⟨out, .paren :: marks, b⟩ [] ⟨out, marks, b'⟩ :=
  ⟨by simp [State.content], by simp⟩

/-- Marks that waited go to the output. -/
theorem pop (h : .paren ∉ popped) (b' : Bool) :
    Carries ⟨out, popped ++ marks, b⟩ [] ⟨out ++ popped.map .mark, marks, b'⟩ := by
  refine ⟨?_, ?_⟩
  · simp [State.content, waiting_of_not_mem h]
  · rw [List.filterMap_append, filterMap_leaf?_mark, List.filterMap_nil]

/-- The function below a closed parenthesis goes to the output. -/
theorem popCall {n : String} :
    Carries ⟨out, .paren :: .fn n :: marks, b⟩ [] ⟨out ++ [.mark (.fn n)], marks, b'⟩ := by
  refine ⟨?_, by simp [Item.leaf?]⟩
  show (out ++ [Item.mark (.fn n)] ++ waiting marks).Perm (out ++ waiting (.paren :: .fn n :: marks) ++ [])
  rw [waiting_paren, waiting_cons (by simp), List.append_nil, List.append_assoc]
  exact .refl _

end Carries

/-! ### Items along a run -/

variable {s s' : State} {t : String} {before next : Option String}

/-- A step carries the item of its token over. -/
theorem Step.carries (h : Step next s t s') (hb : s.operandNext = opensOperand before) :
    Carries s (Place.item? ⟨before, t, next⟩).toList s' := by
  cases h with
  | number h =>
    rw [Place.item?_of_isNumber (p := ⟨before, t, next⟩) h]
    exact .emit _
  | function h hn =>
    rw [Place.item?_of_isIdentifier (p := ⟨before, t, next⟩) h, if_pos hn]
    exact .push (by simp)
  | name h hn =>
    rw [Place.item?_of_isIdentifier (p := ⟨before, t, next⟩) h, if_neg hn]
    exact .emit _
  | comma h =>
    rw [Place.item?_of_isSeparator (p := ⟨before, ",", next⟩) (.inr (.inr rfl))]
    exact .pop h true
  | opening =>
    rw [Place.item?_of_isSeparator (p := ⟨before, "(", next⟩) (.inl rfl)]
    exact .pushParen
  | @closing _ _ _ b h hm =>
    rw [Place.item?_of_isSeparator (p := ⟨before, ")", next⟩) (.inr (.inl rfl))]
    exact (Carries.pop h b).trans .popParen
  | @closingCall _ _ _ b _ h =>
    rw [Place.item?_of_isSeparator (p := ⟨before, ")", next⟩) (.inr (.inl rfl))]
    exact (Carries.pop h b).trans .popCall
  | negation h =>
    have hneg : Place.isNegation ⟨before, "-", next⟩ = true := by rw [Place.isNegation, ← hb, h]; rfl
    rw [Place.item?_of_isBinarySymbol (p := ⟨before, "-", next⟩) rfl, if_pos hneg]
    exact .push (by simp)
  | @operator _ _ o h ho hop =>
    have hneg : Place.isNegation ⟨before, t, next⟩ = false := by
      by_cases ht : t = "-"
      · rw [Place.isNegation, ← hb, hop ht, Bool.and_false]
      · simp [Place.isNegation, ht]
    rw [Place.item?_of_isBinarySymbol (p := ⟨before, t, next⟩) h, if_neg (by simp [hneg])]
    -- first the marks that the operator yields to leave, then its own mark begins to wait
    have hpop : Carries
        ⟨s.output, s.marks.takeWhile (waits o) ++ s.marks.dropWhile (waits o), s.operandNext⟩ []
        ⟨s.output ++ (s.marks.takeWhile (waits o)).map .mark, s.marks.dropWhile (waits o), s.operandNext⟩ :=
      .pop (paren_not_mem_takeWhile o s.marks) _
    rw [List.takeWhile_append_dropWhile] at hpop
    exact hpop.trans (.push (by simp))

theorem Step.operandNext_eq (h : Step next s t s') : s'.operandNext = opensOperand (some t) := by
  cases h with
  | number h => exact (opensOperand_of_isOperand (.inl h)).symm
  | function h hn => exact (opensOperand_of_isOperand (.inr h)).symm
  | name h hn => exact (opensOperand_of_isOperand (.inr h)).symm
  | comma h => rfl
  | opening => rfl
  | closing h hm => rfl
  | closingCall h => rfl
  | negation h => rfl
  | operator h ho hb =>
    exact (opensOperand_of_isBinarySymbol h).symm

/-- A token that a step reads has an item, or it only separates others. -/
theorem Step.isSome_item?_iff (h : Step next s t s') (before : Option String) :
    (Place.item? ⟨before, t, next⟩).isSome = true ↔ ¬ Token.IsSeparator t := by
  constructor
  · intro hsome ht
    rw [Place.item?_of_isSeparator (p := ⟨before, t, next⟩) ht] at hsome
    exact absurd hsome (by decide)
  · intro ht
    cases h with
    | number h => rw [Place.item?_of_isNumber (p := ⟨before, t, next⟩) h]; rfl
    | function h hn => rw [Place.item?_of_isIdentifier (p := ⟨before, t, next⟩) h]; rfl
    | name h hn => rw [Place.item?_of_isIdentifier (p := ⟨before, t, next⟩) h]; rfl
    | comma h => exact absurd (.inr (.inr rfl)) ht
    | opening => exact absurd (.inl rfl) ht
    | closing h hm => exact absurd (.inr (.inl rfl)) ht
    | closingCall h => exact absurd (.inr (.inl rfl)) ht
    | negation h => rw [Place.item?_of_isBinarySymbol (p := ⟨before, "-", next⟩) rfl]; rfl
    | operator h ho hb => rw [Place.item?_of_isBinarySymbol (p := ⟨before, t, next⟩) h]; rfl

variable {ts : List String}

theorem run_carries (h : run s ts = .ok s') (hb : s.operandNext = opensOperand before) :
    Carries s ((places before ts).filterMap Place.item?) s' := by
  -- `hb` is what ties the flag of the state to the place of the next token
  induction ts generalizing s before with
  | nil =>
    obtain rfl := Except.ok.inj h
    exact .refl s
  | cons t ts ih =>
    obtain ⟨s₁, hstep, hrun⟩ := run_cons_eq_ok_iff.1 h
    have hitems : (places before (t :: ts)).filterMap Place.item? =
        (Place.item? ⟨before, t, ts.head?⟩).toList ++ (places (some t) ts).filterMap Place.item? := by
      rw [places, List.filterMap_cons]
      cases Place.item? ⟨before, t, ts.head?⟩ <;> rfl
    rw [hitems]
    exact (hstep.carries hb).trans (ih hrun hstep.operandNext_eq)

theorem length_items_of_run (h : run s ts = .ok s') (before : Option String) :
    ((places before ts).filterMap Place.item?).length = ts.countP (¬ Token.IsSeparator ·) := by
  induction ts generalizing s before with
  | nil => rfl
  | cons t ts ih =>
    obtain ⟨s₁, hstep, hrun⟩ := run_cons_eq_ok_iff.1 h
    have hiff := hstep.isSome_item?_iff before
    rw [places, List.countP_cons, ← ih hrun (some t)]
    cases hi : Place.item? ⟨before, t, ts.head?⟩ with
    | none =>
      have ht : Token.IsSeparator t := by simpa [hi] using hiff
      rw [List.filterMap_cons_none hi, if_neg (by simpa using ht), Nat.add_zero]
    | some i =>
      have ht : ¬ Token.IsSeparator t := by simpa [hi] using hiff
      rw [List.filterMap_cons_some hi, if_pos (decide_eq_true ht), List.length_cons]

theorem finish_eq_ok {p : List Item} (h : finish s = .ok p) :
    p = s.content ∧ p.filterMap Item.leaf? = s.output.filterMap Item.leaf? := by
  unfold finish at h
  split at h
  · exact absurd h (by simp)
  · rename_i hparen
    obtain rfl := Except.ok.inj h
    refine ⟨?_, ?_⟩
    · rw [State.content, waiting_of_not_mem (by simpa using hparen)]
    · rw [List.filterMap_append, filterMap_leaf?_mark, List.append_nil]

/-- The listing of a text has the items of its tokens, the leaves among them in order. -/
theorem arrange_carries {p : List Item} (h : arrange ts = .ok p) :
    p.Perm ((places none ts).filterMap Place.item?) ∧
    p.filterMap Item.leaf? = ((places none ts).filterMap Place.item?).filterMap Item.leaf? ∧
    p.length = ts.countP (¬ Token.IsSeparator ·) := by
  unfold arrange at h
  split at h
  · exact absurd h (by simp)
  · rename_i s hrun
    have hcarries : Carries start ((places none ts).filterMap Place.item?) s := run_carries hrun rfl
    obtain ⟨hcontent, hleaves⟩ := finish_eq_ok h
    have hperm : p.Perm ((places none ts).filterMap Place.item?) := by
      rw [hcontent]
      exact hcarries.content
    refine ⟨hperm, ?_, ?_⟩
    · rw [hleaves]
      exact hcarries.leaves
    · rw [hperm.length_eq, length_items_of_run hrun none]

end Postfix

/-! ### Nodes and tokens -/

namespace Expr

open Postfix

theorem ofTokens_eq_ok {ts : List String} {e : Expr} (h : ofTokens ts = .ok e) :
    arrange ts = .ok e.postorder ∧ e.Everywhere Buildable := by
  unfold ofTokens at h
  split at h
  · exact absurd h (by simp)
  · rename_i p hp
    obtain ⟨rfl, hbuildable⟩ := build_eq_ok_iff.1 h
    exact ⟨hp, hbuildable⟩

/-- A projection of items sees the same in the nodes and in the tokens. -/
theorem filterMap_nodes_perm {α : Type} {ts : List String} {e : Expr} (h : ofTokens ts = .ok e)
    (f : Item → Option α) :
    (e.nodes.filterMap fun n => f n.item).Perm ((places none ts).filterMap fun p => p.item?.bind f) := by
  have hperm := (arrange_carries (ofTokens_eq_ok h).1).1.filterMap f
  rw [List.filterMap_filterMap, postorder, List.filterMap_map] at hperm
  exact hperm

/-- The leaves of a tree from left to right are the numbers and names of the text, names of functions apart,
and its inner nodes are the functions, the negations and the operators of the text, each as often. -/
theorem nodes_of_ofTokens {ts : List String} {e : Expr} (h : ofTokens ts = .ok e) :
    e.nodes.filterMap leaf? = (places none ts).filterMap Place.leaf? ∧
    (e.nodes.filterMap callee?).Perm ((places none ts).filterMap Place.callee?) ∧
    e.nodes.countP isUnary = (places none ts).countP Place.isNegation ∧
    (e.nodes.filterMap symbol?).Perm ((places none ts).filterMap Place.symbol?) ∧
    e.size = ts.countP (¬ Token.IsSeparator ·) ∧
    ∀ n, n ∈ e.variables ↔
      ∃ p ∈ places none ts, p.token = n ∧ Token.isIdentifier n = true ∧ p.after ≠ some "(" := by
  obtain ⟨harrange, hbuildable⟩ := ofTokens_eq_ok h
  obtain ⟨hperm, hleaves, hlength⟩ := arrange_carries harrange
  have hleaf : e.nodes.filterMap leaf? = (places none ts).filterMap Place.leaf? := by
    rw [postorder, List.filterMap_map, List.filterMap_filterMap] at hleaves
    simp only [Function.comp_def, item_leaf?, Place.item?_bind_leaf?] at hleaves
    exact hleaves
  refine ⟨hleaf, ?_, ?_, ?_, ?_, fun n => ?_⟩
  · have hcallee := filterMap_nodes_perm h Item.callee?
    simp only [item_callee?, Place.item?_bind_callee?] at hcallee
    exact hcallee
  · have hcount := hperm.countP_eq Item.isNegation
    have hnode : ∀ n ∈ e.nodes, n.item.isNegation = true ↔ n.isUnary = true := fun n hn => by
      rw [item_isNegation (hbuildable n hn)]
    have hplace : ∀ p ∈ places none ts,
        (p.item?.map Item.isNegation).getD false = true ↔ p.isNegation = true := fun p _ => by
      rw [← p.item?_any_isNegation]
      cases p.item? <;> rfl
    rw [postorder, List.countP_map, List.countP_filterMap, List.countP_congr hplace] at hcount
    rw [← hcount]
    exact (List.countP_congr hnode).symm
  · have hsymbol := filterMap_nodes_perm h Item.symbol?
    have hnode : ∀ n ∈ e.nodes, n.item.symbol? = n.symbol? := fun n hn => item_symbol? (hbuildable n hn)
    rw [List.filterMap_congr hnode] at hsymbol
    simp only [Place.item?_bind_symbol?] at hsymbol
    exact hsymbol
  · rw [← length_nodes, ← hlength, postorder, List.length_map]
  · calc n ∈ e.variables ↔ var n ∈ e.nodes := mem_variables
      _ ↔ var n ∈ e.nodes.filterMap leaf? := by
        simp only [List.mem_filterMap, leaf?_eq_var, exists_eq_right]
      _ ↔ var n ∈ (places none ts).filterMap Place.leaf? := by rw [hleaf]
      _ ↔ _ := by simp only [List.mem_filterMap, Place.leaf?_eq_var]

/-- This holds also of texts that no grammar has, such as one with a sum behind its operands. -/
theorem nodes_of_sum_behind :
    let ts := ["root", "(", "-", "x", ",", "y", "2", "+", ")"]
    let e : Expr := .call "root" [.unary "-" (.var "x"), .binary "+" (.var "y") (.lit "2")]
    ofTokens ts = .ok e ∧
    (places none ts).filterMap Place.leaf? = [.var "x", .var "y", .lit "2"] ∧
    (e.nodes.filterMap callee?).Perm ["root"] ∧ e.nodes.countP isUnary = 1 ∧
    (e.nodes.filterMap symbol?).Perm ["+"] ∧ e.size = 6 ∧ "x" ∈ e.variables ∧ "root" ∉ e.variables := by
  intro ts e
  have h : ofTokens ts = .ok e := rfl
  obtain ⟨hleaf, hcallee, hunary, hsymbol, hsize, hvariables⟩ := nodes_of_ofTokens h
  refine ⟨h, hleaf.symm, hcallee, hunary, hsymbol, hsize, ?_, ?_⟩
  · exact (hvariables "x").2 ⟨⟨some "-", "x", some ","⟩, by decide, rfl, by decide, by decide⟩
  · rw [hvariables]
    decide

end Expr

end Phasor
