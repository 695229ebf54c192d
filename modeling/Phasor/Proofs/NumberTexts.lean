import Phasor.Complex.Reading
import Phasor.Proofs.Lexemes
import Phasor.Proofs.Numerals

/-!
# Real and imaginary numbers in writing

`RealText`, `ImaginaryText` and `SumText` are the three forms of a number: a numeral with a sign, the same with the suffix
`i`, where the numeral may be missing, and both one after the other. Each reader takes its own form and nothing else
(`real?_eq_some_iff`, `imaginary?_eq_some_iff`, `sum?_eq_some_iff`), no text has two of the forms, and none has blanks.
-/

namespace Phasor.Numeral

open Text

variable {cs rest : List Char} {n : Numeral} {x y : Float}

/-! ### The three forms -/

inductive RealText : List Char → Float → Prop
  | mk {sign ns : List Char} {negative : Bool} {n : Numeral} (hsign : SignText sign negative) (hn : Spells ns n) :
    RealText (sign ++ ns) (withSign negative n.value)

/-- The factor of an imaginary unit, one where nothing is written. -/
inductive Coefficient : List Char → Float → Prop
  | unit : Coefficient [] 1
  | numeral {ns : List Char} {n : Numeral} (hn : Spells ns n) : Coefficient ns n.value

inductive ImaginaryText : List Char → Float → Prop
  | mk {sign ms : List Char} {negative : Bool} {y : Float} (hsign : SignText sign negative) (hy : Coefficient ms y) :
    ImaginaryText (sign ++ (ms ++ ['i'])) (withSign negative y)

/-- The imaginary part has its sign in writing. -/
inductive SumText : List Char → Float → Float → Prop
  | mk {rs is : List Char} {x y : Float} (hx : RealText rs x) (hy : ImaginaryText is y)
    (hsign : ∀ c ∈ is.head?, c = '+' ∨ c = '-') : SumText (rs ++ is) x y

theorem real?_eq_some_iff : real? cs = some x ↔ RealText cs x := by
  constructor
  · intro h
    obtain ⟨sign, hsign, hcs⟩ := takeSign_cases cs
    unfold real? at h
    dsimp only at h
    split at h
    · rename_i n htake
      obtain ⟨ns, hn, hr⟩ := spells_of_take? htake
      have htext := RealText.mk hsign hn
      rwa [← List.append_nil ns, ← hr, ← hcs, Option.some.inj h] at htext
    · exact absurd h (by simp)
  · intro h
    cases h with
    | @mk sign ns negative n hsign hn =>
      have htake := take?_of_spells hn ends_nil
      have hsign' := takeSign_append hsign (not_sign_of_spells hn [])
      rw [List.append_nil] at htake hsign'
      rw [real?, hsign']
      dsimp only
      rw [htake]

theorem imaginary?_eq_some_iff : imaginary? cs = some y ↔ ImaginaryText cs y := by
  constructor
  · intro h
    obtain ⟨sign, hsign, hcs⟩ := takeSign_cases cs
    unfold imaginary? at h
    dsimp only at h
    split at h
    · rename_i hr
      have htext := ImaginaryText.mk hsign .unit
      rwa [List.nil_append, ← hr, ← hcs, Option.some.inj h] at htext
    · split at h
      · rename_i n htake
        obtain ⟨ns, hn, hr⟩ := spells_of_take? htake
        have htext := ImaginaryText.mk hsign (.numeral hn)
        rwa [← hr, ← hcs, Option.some.inj h] at htext
      · exact absurd h (by simp)
  · intro h
    cases h with
    | @mk sign ms negative y hsign hy =>
    rw [imaginary?]
    cases hy with
    | unit =>
      rw [takeSign_append hsign (by simp)]
      rfl
    | @numeral _ n hn =>
      have hunit : ms ++ ['i'] ≠ ['i'] := fun h => spells_ne_nil hn (List.append_left_eq_self.1 h)
      rw [takeSign_append hsign (not_sign_of_spells hn _)]
      dsimp only
      rw [if_neg hunit, take?_of_spells hn (by simp [Ends])]
      rfl

theorem sum?_eq_some_iff : sum? cs = some (x, y) ↔ SumText cs x y := by
  constructor
  · intro h
    obtain ⟨sign, hsign, hcs⟩ := takeSign_cases cs
    unfold sum? at h
    dsimp only at h
    split at h
    · rename_i n c r htake
      obtain ⟨ns, hn, hr⟩ := spells_of_take? htake
      split at h
      · rename_i hc
        obtain ⟨y', hy, hpair⟩ := Option.map_eq_some_iff.1 h
        obtain ⟨hx, rfl⟩ := Prod.mk.inj hpair
        have htext := SumText.mk (.mk hsign hn) (imaginary?_eq_some_iff.1 hy) (by simpa using hc)
        rwa [List.append_assoc, ← hr, ← hcs, hx] at htext
      · exact absurd h (by simp)
    · exact absurd h (by simp)
  · intro h
    cases h with
    | @mk rs is x y hx hy hhead =>
    cases hx with
    | @mk sign ns negative n hsign hn =>
    cases is with
    | nil =>
      have hnone : imaginary? [] = none := rfl
      rw [imaginary?_eq_some_iff.2 hy] at hnone
      exact absurd hnone (by simp)
    | cons c r =>
      have hc := hhead c rfl
      have hends : Ends (c :: r) := fun d hd => by
        obtain rfl : c = d := Option.some.inj hd
        exact hc.imp_right .inl
      rw [sum?, List.append_assoc, takeSign_append hsign (not_sign_of_spells hn _)]
      dsimp only
      rw [take?_of_spells hn hends]
      dsimp only
      rw [if_pos (by simpa using hc), imaginary?_eq_some_iff.2 hy]
      rfl

/-! ### The forms exclude each other -/

theorem take?_of_realText (h : RealText cs x) : ∃ n, take? (takeSign cs).2 = some (n, []) := by
  have h := real?_eq_some_iff.2 h
  unfold real? at h
  dsimp only at h
  split at h
  · rename_i n htake
    exact ⟨n, htake⟩
  · exact absurd h (by simp)

theorem take?_of_imaginaryText (h : ImaginaryText cs y) :
    take? (takeSign cs).2 = none ∨ ∃ n, take? (takeSign cs).2 = some (n, ['i']) := by
  have h := imaginary?_eq_some_iff.2 h
  unfold imaginary? at h
  dsimp only at h
  split at h
  · rename_i hunit
    rw [hunit]
    exact .inl rfl
  · split at h
    · rename_i n htake
      exact .inr ⟨n, htake⟩
    · exact absurd h (by simp)

theorem take?_of_sumText (h : SumText cs x y) :
    ∃ n c r, take? (takeSign cs).2 = some (n, c :: r) ∧ (c = '+' ∨ c = '-') := by
  have h := sum?_eq_some_iff.2 h
  unfold sum? at h
  dsimp only at h
  split at h
  · rename_i n c r htake
    split at h
    · rename_i hc
      exact ⟨n, c, r, htake, by simpa using hc⟩
    · exact absurd h (by simp)
  · exact absurd h (by simp)

theorem imaginary?_of_realText (h : RealText cs x) : imaginary? cs = none := by
  rw [Option.eq_none_iff_forall_ne_some]
  intro y hy
  obtain ⟨n, hreal⟩ := take?_of_realText h
  rcases take?_of_imaginaryText (imaginary?_eq_some_iff.1 hy) with hnone | ⟨m, himaginary⟩
  · exact absurd (hreal.symm.trans hnone) (by simp)
  · exact absurd (hreal.symm.trans himaginary) (by simp)

theorem real?_of_imaginaryText (h : ImaginaryText cs y) : real? cs = none := by
  rw [Option.eq_none_iff_forall_ne_some]
  intro x hx
  exact absurd ((imaginary?_of_realText (real?_eq_some_iff.1 hx)).symm.trans (imaginary?_eq_some_iff.2 h)) (by simp)

theorem real?_of_sumText (h : SumText cs x y) : real? cs = none := by
  rw [Option.eq_none_iff_forall_ne_some]
  intro x' hx
  obtain ⟨n, hreal⟩ := take?_of_realText (real?_eq_some_iff.1 hx)
  obtain ⟨m, c, r, hsum, -⟩ := take?_of_sumText h
  exact absurd (hreal.symm.trans hsum) (by simp)

theorem imaginary?_of_sumText (h : SumText cs x y) : imaginary? cs = none := by
  rw [Option.eq_none_iff_forall_ne_some]
  intro y' hy
  obtain ⟨m, c, r, hsum, hc⟩ := take?_of_sumText h
  rcases take?_of_imaginaryText (imaginary?_eq_some_iff.1 hy) with hnone | ⟨n, himaginary⟩
  · exact absurd (hsum.symm.trans hnone) (by simp)
  · obtain ⟨-, hlist⟩ := Prod.mk.inj (Option.some.inj (hsum.symm.trans himaginary))
    obtain ⟨rfl, -⟩ := List.cons.inj hlist
    exact absurd hc (by decide)

/-! ### Characters of numbers -/

/-- No blank is among them. -/
def IsNumberChar (c : Char) : Prop :=
  c.isDigit = true ∨ c = '.' ∨ c = 'e' ∨ c = 'E' ∨ c = '+' ∨ c = '-' ∨ c = 'i'

theorem isBlank_of_isNumberChar {c : Char} (h : IsNumberChar c) : isBlank c = false := by
  rcases h with hdigit | rfl | rfl | rfl | rfl | rfl | rfl
  · exact Token.isBlank_of_isIdentRest (Token.isIdentRest_of_isDigit hdigit)
  all_goals rfl

theorem isNumberChar_of_signText {sign : List Char} {negative : Bool} (h : SignText sign negative) :
    ∀ c ∈ sign, IsNumberChar c := by
  intro c hc
  cases h with
  | none => exact absurd hc List.not_mem_nil
  | plus =>
    obtain rfl := List.mem_singleton.1 hc
    simp [IsNumberChar]
  | minus =>
    obtain rfl := List.mem_singleton.1 hc
    simp [IsNumberChar]

theorem isNumberChar_of_isDigits {ds : List Char} (h : IsDigits ds) : ∀ c ∈ ds, IsNumberChar c :=
  fun c hc => .inl (h c hc)

theorem isNumberChar_of_spells {ns : List Char} {n : Numeral} (h : Spells ns n) : ∀ c ∈ ns, IsNumberChar c := by
  obtain ⟨ms, ps, hmantissa, hpower, rfl⟩ := h
  generalize n.whole = whole, n.fraction = fraction, n.power = power at hmantissa hpower
  refine List.forall_mem_append.2 ⟨?_, ?_⟩
  · cases hmantissa with
    | whole _ hws => exact isNumberChar_of_isDigits hws
    | point _ _ hws hfs =>
      refine List.forall_mem_append.2 ⟨isNumberChar_of_isDigits hws, List.forall_mem_cons.2 ⟨.inr (.inl rfl), ?_⟩⟩
      exact isNumberChar_of_isDigits hfs
  · cases hpower with
    | none => exact fun c hc => absurd hc List.not_mem_nil
    | some c hc sign negative hsign ds hds =>
      refine List.forall_mem_cons.2 ⟨?_, List.forall_mem_append.2 ⟨isNumberChar_of_signText hsign, ?_⟩⟩
      · rcases hc with rfl | rfl
        · exact .inr (.inr (.inl rfl))
        · exact .inr (.inr (.inr (.inl rfl)))
      · exact isNumberChar_of_isDigits hds

theorem isNumberChar_of_realText (h : RealText cs x) : ∀ c ∈ cs, IsNumberChar c := by
  obtain ⟨hsign, hn⟩ := h
  exact List.forall_mem_append.2 ⟨isNumberChar_of_signText hsign, isNumberChar_of_spells hn⟩

theorem isNumberChar_of_imaginaryText (h : ImaginaryText cs y) : ∀ c ∈ cs, IsNumberChar c := by
  obtain ⟨hsign, hy⟩ := h
  refine List.forall_mem_append.2 ⟨isNumberChar_of_signText hsign, List.forall_mem_append.2 ⟨?_, ?_⟩⟩
  · cases hy with
    | unit => exact fun c hc => absurd hc List.not_mem_nil
    | numeral hn => exact isNumberChar_of_spells hn
  · simp [IsNumberChar]

theorem isNumberChar_of_sumText (h : SumText cs x y) : ∀ c ∈ cs, IsNumberChar c := by
  obtain ⟨hx, hy, -⟩ := h
  exact List.forall_mem_append.2 ⟨isNumberChar_of_realText hx, isNumberChar_of_imaginaryText hy⟩

theorem squeeze_eq_self_of_isNumberChar (h : ∀ c ∈ cs, IsNumberChar c) : squeeze cs = cs :=
  squeeze_eq_self fun c hc => isBlank_of_isNumberChar (h c hc)

end Phasor.Numeral
