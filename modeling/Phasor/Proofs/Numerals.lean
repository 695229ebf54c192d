import Mathlib
import Phasor.Numeral
import Phasor.Proofs.Nearest
import Phasor.Proofs.Tokens

/-!
# The grammar of numerals

`Spells cs n` says that the text `cs` is a numeral with the parts of `n`. The longest numeral at the front of a text is
one (`spells_of_take?`), and a numeral is read to its end where a sign, the suffix `i` or nothing follows
(`take?_of_spells`). Its value is the double nearest to its exact value (`value_eq_nearest`).
-/

namespace Phasor.Numeral

/-! ### Texts of numerals -/

def IsDigits (ds : List Char) : Prop := ∀ c ∈ ds, c.isDigit = true

/-- Digits with a point anywhere among them, or without one. -/
inductive MantissaText : List Char → List Char → List Char → Prop
  | whole (ws : List Char) (hws : IsDigits ws) (hne : ws ≠ []) : MantissaText ws ws []
  | point (ws fs : List Char) (hws : IsDigits ws) (hfs : IsDigits fs) (hne : ws ≠ [] ∨ fs ≠ []) :
    MantissaText (ws ++ '.' :: fs) ws fs

/-- The sign of an exponent, and whether it is a minus. -/
inductive SignText : List Char → Bool → Prop
  | none : SignText [] false
  | plus : SignText ['+'] false
  | minus : SignText ['-'] true

def withMinus (negative : Bool) (n : ℕ) : ℤ := if negative then -n else n

/-- An exponent, or nothing for the power zero. -/
inductive PowerText : List Char → ℤ → Prop
  | none : PowerText [] 0
  | some (c : Char) (hc : c = 'e' ∨ c = 'E') (sign : List Char) (negative : Bool) (hsign : SignText sign negative)
    (ds : List Char) (hds : IsDigits ds) (hne : ds ≠ []) :
    PowerText (c :: (sign ++ ds)) (withMinus negative (Nat.ofDigitChars 10 ds 0))

/-- The text is the numeral `n` in writing. -/
def Spells (cs : List Char) (n : Numeral) : Prop :=
  ∃ ms ps, MantissaText ms n.whole n.fraction ∧ PowerText ps n.power ∧ cs = ms ++ ps

/-- What may come after a numeral: nothing, a sign or the suffix. -/
def Ends (rest : List Char) : Prop := ∀ c ∈ rest.head?, c = '+' ∨ c = '-' ∨ c = 'i'

theorem ends_nil : Ends [] := fun _ h => absurd h (by simp)

theorem Ends.isDigit {rest : List Char} (h : Ends rest) : ∀ c ∈ rest.head?, c.isDigit = false := by
  intro c hc
  rcases h c hc with rfl | rfl | rfl <;> decide

/-! ### Reading a numeral -/

variable {cs rest : List Char} {n : Numeral}

theorem takeDigits_append {ds : List Char} (hds : IsDigits ds) (hrest : ∀ c ∈ rest.head?, c.isDigit = false) :
    takeDigits (ds ++ rest) = (ds, rest) := by
  obtain ⟨htake, hdrop⟩ := span_append hds hrest
  rw [takeDigits, htake, hdrop]

theorem takeDigits_cases (cs : List Char) : IsDigits (takeDigits cs).1 ∧ cs = (takeDigits cs).1 ++ (takeDigits cs).2 :=
  ⟨fun _ hc => List.mem_takeWhile_imp hc, List.takeWhile_append_dropWhile.symm⟩

theorem takeSign_append {sign : List Char} {negative : Bool} (hsign : SignText sign negative)
    (hrest : ∀ c ∈ rest.head?, c ≠ '+' ∧ c ≠ '-') : takeSign (sign ++ rest) = (negative, rest) := by
  cases hsign with
  | none =>
    rw [List.nil_append]
    unfold takeSign
    split
    · exact absurd rfl (hrest '+' rfl).1
    · exact absurd rfl (hrest '-' rfl).2
    · rfl
  | plus => rfl
  | minus => rfl

theorem takeSign_cases (cs : List Char) :
    ∃ sign, SignText sign (takeSign cs).1 ∧ cs = sign ++ (takeSign cs).2 := by
  unfold takeSign
  split
  · exact ⟨_, .plus, rfl⟩
  · exact ⟨_, .minus, rfl⟩
  · exact ⟨_, .none, rfl⟩

/-- A text that starts with a digit or a point starts with no sign. -/
theorem not_sign_of_isDigits {ds : List Char} (hds : IsDigits ds) (hne : ds ≠ []) (rest : List Char) :
    ∀ c ∈ (ds ++ rest).head?, c ≠ '+' ∧ c ≠ '-' := by
  intro c hc
  obtain ⟨d, ds', rfl⟩ := List.exists_cons_of_ne_nil hne
  obtain rfl : d = c := Option.some.inj hc
  have hd := hds d (List.mem_cons_self ..)
  constructor <;> rintro rfl <;> exact absurd hd (by decide)

theorem takePower_of_powerText {ps : List Char} {p : ℤ} (h : PowerText ps p) (hrest : Ends rest) :
    takePower (ps ++ rest) = (p, rest) := by
  cases h with
  | none =>
    cases rest with
    | nil => rfl
    | cons c rest =>
      have hc : (c = 'e' || c = 'E') = false := by rcases hrest c rfl with rfl | rfl | rfl <;> rfl
      rw [List.nil_append, takePower, hc]
      rfl
  | some c hc sign negative hsign ds hds hne =>
    have hexponent : (c = 'e' || c = 'E') = true := by simpa using hc
    rw [List.cons_append, List.append_assoc, takePower, if_pos hexponent,
      takeSign_append hsign (not_sign_of_isDigits hds hne rest)]
    dsimp only
    rw [takeDigits_append hds hrest.isDigit]
    dsimp only
    rw [if_neg (by simpa using hne)]
    rfl

theorem takePower_cases (cs : List Char) : ∃ ps, PowerText ps (takePower cs).1 ∧ cs = ps ++ (takePower cs).2 := by
  unfold takePower
  split
  · rename_i c r
    split
    · rename_i hc
      dsimp only
      split
      · exact ⟨[], .none, rfl⟩
      · rename_i hne
        obtain ⟨sign, hsign, hcs⟩ := takeSign_cases r
        obtain ⟨hds, hr⟩ := takeDigits_cases (takeSign r).2
        refine ⟨_, .some c (by simpa using hc) sign _ hsign _ hds (by simpa using hne), ?_⟩
        rw [List.cons_append, List.append_assoc, ← hr, ← hcs]
    · exact ⟨[], .none, rfl⟩
  · exact ⟨[], .none, rfl⟩

theorem head?_powerText {ps : List Char} {p : ℤ} (h : PowerText ps p) (hrest : Ends rest) :
    ∀ c ∈ (ps ++ rest).head?, c.isDigit = false ∧ c ≠ '.' := by
  intro c hc
  cases h with
  | none => rcases hrest c hc with rfl | rfl | rfl <;> decide
  | some d hd =>
    obtain rfl : d = c := Option.some.inj hc
    rcases hd with rfl | rfl <;> decide

theorem takeFraction_point (r : List Char) : takeFraction ('.' :: r) = takeDigits r := rfl

theorem takeFraction_of_ne (h : ∀ c ∈ cs.head?, c ≠ '.') : takeFraction cs = ([], cs) := by
  unfold takeFraction
  split
  · exact absurd rfl (h '.' rfl)
  · rfl

theorem take?_eq (cs : List Char) : take? cs =
    if (takeDigits cs).1.isEmpty && (takeFraction (takeDigits cs).2).1.isEmpty then none
    else some (⟨(takeDigits cs).1, (takeFraction (takeDigits cs).2).1,
      (takePower (takeFraction (takeDigits cs).2).2).1⟩, (takePower (takeFraction (takeDigits cs).2).2).2) :=
  rfl

/-- A numeral is read to its end. -/
theorem take?_of_spells (h : Spells cs n) (hrest : Ends rest) : take? (cs ++ rest) = some (n, rest) := by
  obtain ⟨ms, ps, hmantissa, hpower, rfl⟩ := h
  have hfollow := head?_powerText hpower hrest
  have htake := takePower_of_powerText hpower hrest
  rw [List.append_assoc, take?_eq]
  cases n with
  | mk whole fraction power =>
  cases hmantissa with
  | whole ws hws hne =>
    rw [takeDigits_append hws fun c hc => (hfollow c hc).1]
    dsimp only
    rw [takeFraction_of_ne fun c hc => (hfollow c hc).2]
    dsimp only
    rw [htake, if_neg (by simpa using hne)]
  | point ws fs hws hfs hne =>
    rw [List.append_assoc, List.cons_append, takeDigits_append hws (by simp)]
    dsimp only
    rw [takeFraction_point, takeDigits_append hfs fun c hc => (hfollow c hc).1]
    dsimp only
    rw [htake, if_neg (by simpa [Classical.or_iff_not_imp_left] using hne)]

/-- What is read is a numeral. -/
theorem spells_of_take? (h : take? cs = some (n, rest)) : ∃ ns, Spells ns n ∧ cs = ns ++ rest := by
  obtain ⟨hws, hcs⟩ := takeDigits_cases cs
  rw [take?_eq] at h
  split at h
  · exact absurd h (by simp)
  rename_i hne
  obtain ⟨rfl, rfl⟩ := Prod.mk.inj (Option.some.inj h)
  generalize (takeDigits cs).1 = ws at hws hcs hne
  generalize (takeDigits cs).2 = r at hcs hne
  obtain ⟨ps, hpower, hr⟩ := takePower_cases (takeFraction r).2
  rw [Bool.and_eq_true, List.isEmpty_iff, List.isEmpty_iff, not_and_or] at hne
  by_cases hpoint : ∃ t, r = '.' :: t
  · obtain ⟨t, rfl⟩ := hpoint
    rw [takeFraction_point] at hr hne ⊢
    obtain ⟨hfs, ht⟩ := takeDigits_cases t
    refine ⟨_, ⟨_, ps, .point ws (takeDigits t).1 hws hfs hne, hpower, rfl⟩, ?_⟩
    rw [hcs, List.append_assoc, List.append_assoc, List.cons_append, ← hr, ← ht]
  · have hnone : takeFraction r = ([], r) := takeFraction_of_ne fun c hc hpoint' => by
      cases r with
      | nil => exact absurd hc (by simp)
      | cons d t => exact hpoint ⟨t, by rw [← hpoint', Option.some.inj hc]⟩
    rw [hnone] at hr hne hpower ⊢
    refine ⟨_, ⟨ws, ps, .whole ws hws (hne.resolve_right fun h => h rfl), hpower, rfl⟩, ?_⟩
    rw [hcs, List.append_assoc, ← hr]

theorem spells_ne_nil {ns : List Char} (h : Spells ns n) : ns ≠ [] := by
  obtain ⟨ms, ps, hmantissa, -, rfl⟩ := h
  generalize n.whole = whole, n.fraction = fraction at hmantissa
  cases hmantissa with
  | whole ws hws hne => simp [hne]
  | point ws fs hws hfs hne => simp

theorem not_sign_of_spells {ns : List Char} (h : Spells ns n) (rest : List Char) :
    ∀ c ∈ (ns ++ rest).head?, c ≠ '+' ∧ c ≠ '-' := by
  obtain ⟨ms, ps, hmantissa, -, rfl⟩ := h
  generalize n.whole = whole, n.fraction = fraction at hmantissa
  rw [List.append_assoc]
  cases hmantissa with
  | whole ws hws hne => exact not_sign_of_isDigits hws hne _
  | point _ _ hws hfs hne =>
    by_cases hempty : whole = []
    · subst hempty
      intro c hc
      obtain rfl : '.' = c := Option.some.inj hc
      decide
    · rw [List.append_assoc]
      exact not_sign_of_isDigits hws hempty _

/-! ### The value -/

/-- The value of a numeral before it is rounded. -/
def exact (n : Numeral) : ℚ := Nat.ofDigitChars 10 (n.whole ++ n.fraction) 0 * 10 ^ (n.power - n.fraction.length)

/-- The text is a numeral of the value `q`. -/
def Writes (cs : List Char) (q : ℚ) : Prop := ∃ n, Spells cs n ∧ n.exact = q

theorem writes_of_mantissaText {ms ws fs ps : List Char} {p : ℤ} (hm : MantissaText ms ws fs) (hp : PowerText ps p) :
    Writes (ms ++ ps) (Nat.ofDigitChars 10 (ws ++ fs) 0 * 10 ^ (p - fs.length)) :=
  ⟨⟨ws, fs, p⟩, ⟨ms, ps, hm, hp, rfl⟩, rfl⟩

theorem exact_nonneg (n : Numeral) : 0 ≤ n.exact := by
  unfold exact
  positivity

theorem value_eq_nearest (n : Numeral) : n.value = Double.nearest n.exact :=
  Double.toFloat_eq_nearest _

theorem isFinite_value (n : Numeral) : n.value.isFinite = true ↔ n.exact < Double.limit := by
  rw [value_eq_nearest, Double.isFinite_nearest n.exact_nonneg]

end Phasor.Numeral
