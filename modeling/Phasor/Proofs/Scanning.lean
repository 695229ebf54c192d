import Phasor.Proofs.Lexemes

/-!
# Which texts are cut into tokens

A text is cut into tokens exactly if every character fits in its place (`FitsAt`); otherwise the first
character that does not fit is reported with its place. `Answers` says this of a part of the text, and the
lexeme taken off its front leaves the next part.
-/

namespace Phasor.Token

open Text

/-- The character at the place `i`, if there is one, fits before the character after it. -/
def FitsAt (cs : List Char) (i : Nat) : Prop := ∀ c ∈ cs[i]?, Fits c cs[i + 1]?

instance (cs : List Char) (i : Nat) : Decidable (FitsAt cs i) :=
  Option.decidableForallMem cs[i]?

/-- The character `c` is the first one that does not fit, and stands at the place `i`. -/
def FirstMisfit (cs : List Char) (i : Nat) (c : Char) : Prop :=
  cs[i]? = some c ∧ ¬ Fits c cs[i + 1]? ∧ ∀ j < i, FitsAt cs j

instance (cs : List Char) (i : Nat) (c : Char) : Decidable (FirstMisfit cs i c) :=
  inferInstanceAs (Decidable (_ ∧ ¬ Fits c cs[i + 1]? ∧ ∀ j < i, FitsAt cs j))

/-! ### Places -/

theorem allowed_iff {l r : List Char} : Allowed l r ↔ ∀ i < l.length, FitsAt (l ++ r) i := by
  induction l with
  | nil => exact iff_of_true trivial fun i hi => absurd hi (Nat.not_lt_zero i)
  | cons c l ih =>
    rw [Allowed, ih]
    constructor
    · rintro ⟨hc, hl⟩ i hi
      cases i with
      | zero =>
        intro c' hc'
        obtain rfl : c = c' := Option.some.inj hc'
        rwa [List.head?_eq_getElem?] at hc
      | succ i => exact hl i (Nat.lt_of_succ_lt_succ hi)
    · intro h
      refine ⟨?_, fun i hi => h (i + 1) (Nat.succ_lt_succ hi)⟩
      rw [List.head?_eq_getElem?]
      exact h 0 (Nat.succ_pos _) c rfl

theorem fitsAt_of_length_le {cs : List Char} {i : Nat} (h : cs.length ≤ i) : FitsAt cs i := by
  intro c hc
  rw [List.getElem?_eq_none h] at hc
  exact absurd hc (by simp)

theorem allowed_nil_iff {cs : List Char} : Allowed cs [] ↔ ∀ i, FitsAt cs i := by
  rw [allowed_iff, List.append_nil]
  refine ⟨fun h i => ?_, fun h i _ => h i⟩
  by_cases hi : i < cs.length
  · exact h i hi
  · exact fitsAt_of_length_le (Nat.le_of_not_lt hi)

theorem firstMisfit_append {l r : List Char} {c : Char} (hl : Allowed l (c :: r)) (hc : ¬ Fits c r.head?) :
    FirstMisfit (l ++ c :: r) l.length c := by
  refine ⟨by simp, ?_, allowed_iff.1 hl⟩
  rwa [List.getElem?_append_right (Nat.le_add_right ..), Nat.add_sub_cancel_left, List.getElem?_cons_succ,
    ← List.head?_eq_getElem?]

theorem FirstMisfit.unique {cs : List Char} {i j : Nat} {c d : Char} (h : FirstMisfit cs i c)
    (h' : FirstMisfit cs j d) : i = j ∧ c = d := by
  have hle : ∀ {i j : Nat} {c d : Char}, FirstMisfit cs i c → FirstMisfit cs j d → j ≤ i := by
    intro i j c d h h'
    by_contra hlt
    exact h.2.1 (h'.2.2 i (Nat.lt_of_not_le hlt) c h.1)
  obtain rfl : i = j := Nat.le_antisymm (hle h' h) (hle h h')
  exact ⟨rfl, Option.some.inj (h.1.symm.trans h'.1)⟩

theorem FirstMisfit.not_forall {cs : List Char} {i : Nat} {c : Char} (h : FirstMisfit cs i c) :
    ¬ ∀ j, FitsAt cs j :=
  fun hall => h.2.1 (hall i c h.1)

/-! ### Scanning -/

/-- What the scan of the part `cs` of a text gives; the text ends `total` characters after its start. -/
def Answers (total : Nat) (cs : List Char) : Except ParseError (List String) → Prop
  | .ok ts => Allowed cs [] ∧ (∀ t ∈ ts, IsToken t) ∧ ts.flatMap String.toList = squeeze cs
  | .error err => ∃ l c r, cs = l ++ c :: r ∧ Allowed l (c :: r) ∧ ¬ Fits c r.head? ∧
      err = .unknownCharacter (total - (c :: r).length) c

theorem squeeze_append (l r : List Char) : squeeze (l ++ r) = squeeze l ++ squeeze r :=
  List.filter_append ..

theorem squeeze_of_blanks {l : List Char} (h : ∀ c ∈ l, isBlank c = true) : squeeze l = [] :=
  List.filter_eq_nil_iff.2 fun c hc => by simp [h c hc]

theorem isBlank_of_mem_lexeme {cs : List Char} {c : Char} (h : c ∈ lexeme cs) : isBlank c = false := by
  rcases lexeme_cases cs with ⟨-, heq⟩ | ⟨-, -, heq⟩ | ⟨-, -, heq⟩ <;> rw [heq] at h
  · rcases mem_number h with h | rfl | rfl | rfl | rfl | rfl
    · exact isBlank_of_isIdentRest (isIdentRest_of_isDigit h)
    all_goals rfl
  · exact isBlank_of_isIdentRest (isIdentRest_of_mem_identifier h)
  · cases cs with
    | nil => exact absurd h List.not_mem_nil
    | cons d s =>
      rcases mark_cases d s with ⟨hm, hmark | hmark⟩ | ⟨-, hmark⟩ <;> rw [hmark] at h
      · rw [List.mem_singleton.1 h]
        exact isBlank_of_isMarkChar hm
      · obtain rfl : c = '*' := by simpa using h
        rfl
      · exact absurd h List.not_mem_nil

theorem takeWhile_append_skipBlanks (cs : List Char) : cs.takeWhile isBlank ++ skipBlanks cs = cs :=
  List.takeWhile_append_dropWhile

theorem drop_lexeme {cs rest : List Char} (h : lexeme cs ++ rest = cs) : cs.drop (lexeme cs).length = rest := by
  have hdrop : (lexeme cs ++ rest).drop (lexeme cs).length = rest := List.drop_left
  rwa [h] at hdrop

/-- Blanks in front change nothing. -/
theorem Answers.blanks {total : Nat} {bs cs : List Char} {o : Except ParseError (List String)}
    (hbs : ∀ c ∈ bs, isBlank c = true) (h : Answers total cs o) : Answers total (bs ++ cs) o := by
  have hallowed : ∀ r, Allowed bs r := allowed_of_forall fun c hc next => .inl (hbs c hc)
  cases o with
  | ok ts =>
    obtain ⟨hcs, hts, hflat⟩ := h
    refine ⟨allowed_append.2 ⟨hallowed _, hcs⟩, hts, ?_⟩
    rw [hflat, squeeze_append, squeeze_of_blanks hbs, List.nil_append]
  | error err =>
    obtain ⟨l, c, r, rfl, hl, hc, rfl⟩ := h
    exact ⟨bs ++ l, c, r, by rw [List.append_assoc], allowed_append.2 ⟨hallowed _, hl⟩, hc, rfl⟩

/-- A lexeme in front is the first token. -/
theorem Answers.lexeme {total : Nat} {cs rest : List Char} {o : Except ParseError (List String)}
    (hcs : cs = Token.lexeme cs ++ rest) (hne : Token.lexeme cs ≠ []) (h : Answers total rest o) :
    Answers total cs (o.map (String.ofList (Token.lexeme cs) :: ·)) := by
  cases o with
  | ok ts =>
    obtain ⟨hrest, hts, hflat⟩ := h
    refine ⟨?_, List.forall_mem_cons.2 ⟨isToken_lexeme hne, hts⟩, ?_⟩
    · rw [hcs]
      exact allowed_append.2 ⟨hcs ▸ allowed_lexeme cs _, hrest⟩
    · have hself : squeeze (Token.lexeme cs) = Token.lexeme cs :=
        squeeze_eq_self fun c hc => isBlank_of_mem_lexeme hc
      calc (String.ofList (Token.lexeme cs) :: ts).flatMap String.toList
          = Token.lexeme cs ++ squeeze rest := by rw [List.flatMap_cons, String.toList_ofList, hflat]
        _ = squeeze (Token.lexeme cs ++ rest) := by rw [squeeze_append, hself]
        _ = squeeze cs := by rw [← hcs]
  | error err =>
    obtain ⟨l, c, r, hrest, hl, hc, rfl⟩ := h
    refine ⟨Token.lexeme cs ++ l, c, r, ?_, allowed_append.2 ⟨?_, hl⟩, hc, rfl⟩
    · rw [List.append_assoc, ← hrest, ← hcs]
    · exact allowed_lexeme cs _

theorem answers_scanFrom (total : Nat) (cs : List Char) : Answers total cs (scanFrom total cs) := by
  fun_induction scanFrom total cs with
  | case1 cs hs =>
    have hblank : ∀ c ∈ cs, isBlank c = true := List.dropWhile_eq_nil_iff.1 hs
    have hempty : Answers total [] (.ok []) := ⟨trivial, by simp, rfl⟩
    have := hempty.blanks hblank
    rwa [List.append_nil] at this
  | case2 cs c r hs hl =>
    have hcs : cs.takeWhile isBlank ++ c :: r = cs := by rw [← hs, takeWhile_append_skipBlanks]
    have hblank : isBlank c = false := by
      have := List.head?_dropWhile_not isBlank cs
      rw [show cs.dropWhile isBlank = c :: r from hs] at this
      exact this
    rw [← hcs]
    refine Answers.blanks (fun c hc => List.mem_takeWhile_imp hc) ⟨[], c, r, rfl, trivial, ?_, rfl⟩
    rintro (h | h)
    · rw [hblank] at h; exact absurd h Bool.false_ne_true
    · exact lexeme_ne_nil_iff.2 h hl
  | case3 cs c r hs hl ih =>
    have hcs : cs.takeWhile isBlank ++ c :: r = cs := by rw [← hs, takeWhile_append_skipBlanks]
    obtain ⟨rest, hrest⟩ := lexeme_prefix (c :: r)
    rw [drop_lexeme hrest] at ih ⊢
    rw [← hcs]
    have hblanks : ∀ c ∈ cs.takeWhile isBlank, isBlank c = true := fun c hc => List.mem_takeWhile_imp hc
    have := (ih.lexeme hrest.symm hl).blanks hblanks
    cases h : scanFrom total rest with
    | ok ts => rw [h] at this; exact this
    | error err => rw [h] at this; exact this

theorem fitsAt_of_scan {text : String} {ts : List String} (h : scan text = .ok ts) :
    (∀ i, FitsAt text.toList i) ∧ String.join ts = String.ofList (squeeze text.toList) := by
  have hanswer := answers_scanFrom text.toList.length text.toList
  rw [show scanFrom text.toList.length text.toList = .ok ts from h] at hanswer
  obtain ⟨hallowed, -, hflat⟩ := hanswer
  refine ⟨allowed_nil_iff.1 hallowed, ?_⟩
  rw [← hflat, ← String.toList_join, String.ofList_toList]

theorem isToken_of_scan {text : String} {ts : List String} (h : scan text = .ok ts) : ∀ t ∈ ts, IsToken t := by
  have := answers_scanFrom text.toList.length text.toList
  rw [show scanFrom text.toList.length text.toList = .ok ts from h] at this
  exact this.2.1

theorem exists_of_scan_eq_error {text : String} {err : ParseError} (h : scan text = .error err) :
    ∃ i c, FirstMisfit text.toList i c ∧ err = .unknownCharacter i c := by
  have hanswer := answers_scanFrom text.toList.length text.toList
  rw [show scanFrom text.toList.length text.toList = .error err from h] at hanswer
  obtain ⟨l, c, r, hcs, hl, hc, rfl⟩ := hanswer
  refine ⟨l.length, c, ?_, ?_⟩
  · rw [hcs]
    exact firstMisfit_append hl hc
  · rw [hcs, List.length_append, Nat.add_sub_cancel]

/-- A text is cut into tokens exactly if each of its characters fits; if not, the error names the first character
that does not fit and its place. The tokens are the text without its blanks. -/
theorem scan_stops_at_first_misfit (text : String) :
    ((∃ ts, scan text = .ok ts) ↔ ∀ i, FitsAt text.toList i) ∧
    (∀ err, scan text = .error err ↔ ∃ i c, FirstMisfit text.toList i c ∧ err = .unknownCharacter i c) ∧
    ∀ ts, scan text = .ok ts → String.join ts = String.ofList (squeeze text.toList) := by
  cases hscan : scan text with
  | ok ts =>
    obtain ⟨hfits, hjoin⟩ := fitsAt_of_scan hscan
    refine ⟨iff_of_true ⟨ts, rfl⟩ hfits, fun err => iff_of_false (by simp) ?_, fun ts' hts => ?_⟩
    · rintro ⟨i, c, hmisfit, -⟩
      exact hmisfit.not_forall hfits
    · obtain rfl := Except.ok.inj hts
      exact hjoin
  | error err =>
    obtain ⟨i, c, hmisfit, rfl⟩ := exists_of_scan_eq_error hscan
    refine ⟨iff_of_false (by simp) hmisfit.not_forall, fun err => ⟨fun h => ?_, ?_⟩, fun ts hts => ?_⟩
    · exact ⟨i, c, hmisfit, (Except.error.inj h).symm⟩
    · rintro ⟨j, d, hj, rfl⟩
      obtain ⟨rfl, rfl⟩ := hj.unique hmisfit
      rfl
    · exact absurd hts (by simp)

/-- A point needs a digit after it, so the second one is reported and the first one is not. -/
theorem scan_point_without_digit :
    FirstMisfit " 1e+.5.x".toList 6 '.' ∧ scan " 1e+.5.x" = .error (.unknownCharacter 6 '.') ∧
    (∀ i, FitsAt " 1e+.5 ".toList i) ∧ scan " 1e+.5 " = .ok ["1", "e", "+", ".5"] ∧
    String.join ["1", "e", "+", ".5"] = "1e+.5" := by
  have hmisfit : FirstMisfit " 1e+.5.x".toList 6 '.' := by decide
  have hscan : scan " 1e+.5 " = .ok ["1", "e", "+", ".5"] := by decide +kernel
  obtain ⟨-, herror, -⟩ := scan_stops_at_first_misfit " 1e+.5.x"
  obtain ⟨hok, -, hjoin⟩ := scan_stops_at_first_misfit " 1e+.5 "
  exact ⟨hmisfit, (herror _).2 ⟨6, '.', hmisfit, rfl⟩, hok.1 ⟨_, hscan⟩, hscan, hjoin _ hscan⟩

end Phasor.Token
