import Phasor.Proofs.Literals
import Phasor.Proofs.OperationErrors

/-!
# The forms of input

Input is a real number, an imaginary number, or one after the other with a sign between them, and blanks do not count. A
text has at most one of the three forms (`HasForm.unique`). The sign between the parts is the one after the longest
numeral at the front, so an exponent's sign is never taken for it (`take?_of_splits`), and a text is split at one place
only (`Splits.unique`). Main statement: input is read by its form, and refused where it has none (`ofInput_by_form`).
-/

namespace Phasor

open Text

namespace Numeral

variable {cs rs rs' ms ms' ns : List Char} {s s' : Char} {n n' : Numeral} {x x' c c' y : Float}

/-! ### Values of texts -/

theorem spells_iff : Spells ns n ↔ take? ns = some (n, []) := by
  constructor
  · intro h
    have htake := take?_of_spells h ends_nil
    rwa [List.append_nil] at htake
  · intro h
    obtain ⟨ms, hms, hns⟩ := spells_of_take? h
    rw [List.append_nil] at hns
    exact hns ▸ hms

theorem spells_unique (h : Spells ns n) (h' : Spells ns n') : n = n' :=
  (Prod.mk.inj (Option.some.inj ((spells_iff.1 h).symm.trans (spells_iff.1 h')))).1

theorem Coefficient.unique (h : Coefficient ms c) (h' : Coefficient ms c') : c = c' := by
  cases h with
  | unit =>
    cases h' with
    | unit => rfl
    | numeral hn => exact absurd rfl (spells_ne_nil hn)
  | numeral hn =>
    cases h' with
    | unit => exact absurd rfl (spells_ne_nil hn)
    | numeral hn' => rw [spells_unique hn hn']

theorem realText_unique (h : RealText rs x) (h' : RealText rs x') : x = x' :=
  Option.some.inj ((real?_eq_some_iff.2 h).symm.trans (real?_eq_some_iff.2 h'))

/-! ### A text in two parts -/

/-- The text is the real number `rs`, a sign, and the coefficient `ms` with the suffix. -/
structure Splits (cs rs : List Char) (s : Char) (ms : List Char) (x c : Float) : Prop where
  text : cs = rs ++ s :: (ms ++ ['i'])
  real : RealText rs x
  sign : s = '+' ∨ s = '-'
  coefficient : Coefficient ms c

theorem take?_of_splits (h : Splits cs rs s ms x c) : ∃ n, take? (takeSign cs).2 = some (n, s :: (ms ++ ['i'])) := by
  obtain ⟨rfl, hreal, hs, -⟩ := h
  cases hreal with
  | @mk sign ns negative n hsign hn =>
    have hends : Ends (s :: (ms ++ ['i'])) := fun d hd => by
      obtain rfl : s = d := Option.some.inj hd
      exact hs.imp_right .inl
    rw [List.append_assoc, takeSign_append hsign (not_sign_of_spells hn _)]
    exact ⟨n, take?_of_spells hn hends⟩

/-- What follows the longest numeral is fixed, and with it the parts in front of it and behind it. -/
theorem Splits.unique (h : Splits cs rs s ms x c) (h' : Splits cs rs' s' ms' x' c') :
    (rs = rs' ∧ s = s' ∧ ms = ms') ∧ x = x' ∧ c = c' := by
  obtain ⟨n, htake⟩ := take?_of_splits h
  obtain ⟨n', htake'⟩ := take?_of_splits h'
  have hrest : s :: (ms ++ ['i']) = s' :: (ms' ++ ['i']) :=
    (Prod.mk.inj (Option.some.inj (htake.symm.trans htake'))).2
  obtain ⟨rfl, hms⟩ := List.cons.inj hrest
  obtain rfl := List.append_cancel_right hms
  obtain rfl := List.append_cancel_right (h.text.symm.trans h'.text)
  exact ⟨⟨rfl, rfl, rfl⟩, realText_unique h.real h'.real, h.coefficient.unique h'.coefficient⟩

theorem Splits.sumText (h : Splits cs rs s ms x c) : SumText cs x (withSign (s == '-') c) := by
  obtain ⟨rfl, hreal, hs, hc⟩ := h
  refine .mk hreal ?_ (by simpa using hs)
  rcases hs with rfl | rfl
  · exact .mk .plus hc
  · exact .mk .minus hc

theorem not_sign_of_coefficient (h : Coefficient ms c) : ∀ d ∈ (ms ++ ['i']).head?, d ≠ '+' ∧ d ≠ '-' := by
  cases h with
  | unit => simp
  | numeral hn => exact not_sign_of_spells hn _

theorem sumText_iff : SumText cs x y ↔ ∃ rs s ms c, Splits cs rs s ms x c ∧ y = withSign (s == '-') c := by
  constructor
  · rintro ⟨hx, hy, hhead⟩
    rename_i rs is
    cases hy with
    | @mk sign ms negative c hsign hc =>
      cases hsign with
      | none =>
        obtain ⟨d, ds, hd⟩ := List.exists_cons_of_ne_nil (l := ms ++ ['i']) (by simp)
        have hd := (congrArg List.head? hd)
        obtain ⟨hplus, hminus⟩ := not_sign_of_coefficient hc d hd
        exact absurd (hhead d hd) (by simp [hplus, hminus])
      | plus => exact ⟨rs, '+', ms, c, ⟨rfl, hx, .inl rfl, hc⟩, rfl⟩
      | minus => exact ⟨rs, '-', ms, c, ⟨rfl, hx, .inr rfl, hc⟩, rfl⟩
  · rintro ⟨rs, s, ms, c, h, rfl⟩
    exact h.sumText

/-! ### The three forms together -/

theorem not_imaginaryText_of_realText (h : RealText cs x) : ¬ ImaginaryText cs y := fun hy =>
  Option.some_ne_none y ((imaginary?_eq_some_iff.2 hy).symm.trans (imaginary?_of_realText h))

theorem not_realText_of_sumText (h : SumText cs x y) : ¬ RealText cs x' := fun hx =>
  Option.some_ne_none x' ((real?_eq_some_iff.2 hx).symm.trans (real?_of_sumText h))

theorem not_imaginaryText_of_sumText (h : SumText cs x y) : ¬ ImaginaryText cs y' := fun hy =>
  Option.some_ne_none y' ((imaginary?_eq_some_iff.2 hy).symm.trans (imaginary?_of_sumText h))

inductive InputForm
  | real
  | imaginary
  | sum

/-- The text has the form, with the parts `x` and `y`. -/
def HasForm (cs : List Char) : InputForm → Float → Float → Prop
  | .real, x, y => RealText cs x ∧ y = 0
  | .imaginary, x, y => x = 0 ∧ ImaginaryText cs y
  | .sum, x, y => SumText cs x y

theorem HasForm.unique {f g : InputForm} (h : HasForm cs f x y) (h' : HasForm cs g x' y') :
    f = g ∧ x = x' ∧ y = y' := by
  cases f with
  | real =>
    obtain ⟨hreal, rfl⟩ := h
    cases g with
    | real =>
      obtain ⟨hreal', rfl⟩ := h'
      exact ⟨rfl, realText_unique hreal hreal', rfl⟩
    | imaginary => exact absurd h'.2 (not_imaginaryText_of_realText hreal)
    | sum => exact absurd hreal (not_realText_of_sumText h')
  | imaginary =>
    obtain ⟨rfl, himaginary⟩ := h
    cases g with
    | real => exact absurd himaginary (not_imaginaryText_of_realText h'.1)
    | imaginary =>
      obtain ⟨rfl, himaginary'⟩ := h'
      exact ⟨rfl, rfl, Option.some.inj ((imaginary?_eq_some_iff.2 himaginary).symm.trans
        (imaginary?_eq_some_iff.2 himaginary'))⟩
    | sum => exact absurd himaginary (not_imaginaryText_of_sumText h')
  | sum =>
    cases g with
    | real => exact absurd h'.1 (not_realText_of_sumText h)
    | imaginary => exact absurd h'.2 (not_imaginaryText_of_sumText h)
    | sum =>
      have hparts := (sum?_eq_some_iff.2 h).symm.trans (sum?_eq_some_iff.2 h')
      exact ⟨rfl, Prod.mk.inj (Option.some.inj hparts)⟩

end Numeral

/-! ### Input by its form -/

namespace Complex

open Numeral

variable {t : String} {z : Complex} {err : EvalError}

theorem ofInput_of_hasForm {f : InputForm} {x y : Float} (h : HasForm (squeeze t.toList) f x y) :
    ofInput t = .ok (ofParts x y) := by
  cases f with
  | real =>
    obtain ⟨hreal, rfl⟩ := h
    exact ofInput_of_realText hreal
  | imaginary =>
    obtain ⟨rfl, himaginary⟩ := h
    exact ofInput_of_imaginaryText himaginary
  | sum => exact ofInput_of_sumText h

theorem ofInput_eq_ok_iff : ofInput t = .ok z ↔ ∃ f x y, HasForm (squeeze t.toList) f x y ∧ z = ofParts x y := by
  constructor
  · intro h
    rcases ofInput_eq_ok h with ⟨x, hx, rfl⟩ | ⟨y, hy, rfl⟩ | ⟨x, y, hsum, rfl⟩
    · exact ⟨.real, x, 0, ⟨hx, rfl⟩, rfl⟩
    · exact ⟨.imaginary, 0, y, ⟨rfl, hy⟩, rfl⟩
    · exact ⟨.sum, x, y, hsum, rfl⟩
  · rintro ⟨f, x, y, hform, rfl⟩
    exact ofInput_of_hasForm hform

theorem ofInput_eq_error_iff :
    ofInput t = .error err ↔ (∀ f x y, ¬ HasForm (squeeze t.toList) f x y) ∧ err = .invalidLiteral t := by
  constructor
  · intro h
    refine ⟨fun f x y hform => ?_, ofInput_eq_error h⟩
    rw [ofInput_of_hasForm hform] at h
    exact absurd h (by simp)
  · rintro ⟨hnone, rfl⟩
    cases h : ofInput t with
    | error err => rw [ofInput_eq_error h]
    | ok z =>
      obtain ⟨f, x, y, hform, -⟩ := ofInput_eq_ok_iff.1 h
      exact absurd hform (hnone f x y)

theorem coefficient_of_value {ms : List Char} {c : Float}
    (h : ms = [] ∧ c = 1 ∨ ∃ m, Spells ms m ∧ c = Double.nearest m.exact) : Coefficient ms c := by
  rcases h with ⟨rfl, rfl⟩ | ⟨m, hm, rfl⟩
  · exact .unit
  · rw [← value_eq_nearest]
    exact .numeral hm

theorem ofInput_of_parts {sign ns ms : List Char} {negative : Bool} {n : Numeral} {s : Char} {c : Float}
    (hsign : SignText sign negative) (hn : Spells ns n) (hs : s = '+' ∨ s = '-')
    (hc : ms = [] ∧ c = 1 ∨ ∃ m, Spells ms m ∧ c = Double.nearest m.exact)
    (htext : squeeze t.toList = sign ++ ns ++ s :: (ms ++ ['i'])) :
    ofInput t = .ok (ofParts (withSign negative (Double.nearest n.exact)) (withSign (s == '-') c)) := by
  rw [← value_eq_nearest]
  exact ofInput_of_sumText (Splits.sumText ⟨htext, .mk hsign hn, hs, coefficient_of_value hc⟩)

/-- Input is accepted exactly if it has one of the three forms, of which no text has two, and a text in two parts can be
split in one way only; its parts are the nearest doubles. Any other input is reported as it was typed. -/
theorem ofInput_by_form (t : String) :
    (∀ z, ofInput t = .ok z ↔ ∃ f x y, HasForm (squeeze t.toList) f x y ∧ z = ofParts x y) ∧
    (∀ cs f g x y x' y', HasForm cs f x y → HasForm cs g x' y' → f = g ∧ x = x' ∧ y = y') ∧
    (∀ cs x y, HasForm cs .sum x y ↔ ∃ rs s ms c, Splits cs rs s ms x c ∧ y = withSign (s == '-') c) ∧
    (∀ cs rs s ms x c rs' s' ms' x' c', Splits cs rs s ms x c → Splits cs rs' s' ms' x' c' →
      rs = rs' ∧ s = s' ∧ ms = ms') ∧
    (∀ sign negative ns n s ms c, SignText sign negative → Spells ns n → s = '+' ∨ s = '-' →
      (ms = [] ∧ c = 1 ∨ ∃ m, Spells ms m ∧ c = Double.nearest m.exact) →
      squeeze t.toList = sign ++ ns ++ s :: (ms ++ ['i']) →
      ofInput t = .ok (ofParts (withSign negative (Double.nearest n.exact)) (withSign (s == '-') c))) ∧
    ∀ err, ofInput t = .error err ↔ (∀ f x y, ¬ HasForm (squeeze t.toList) f x y) ∧ err = .invalidLiteral t := by
  refine ⟨fun _ => ofInput_eq_ok_iff, ?_, fun _ _ _ => sumText_iff, ?_, ?_, fun _ => ofInput_eq_error_iff⟩
  · intro cs f g x y x' y' h h'
    exact h.unique h'
  · intro cs rs s ms x c rs' s' ms' x' c' h h'
    exact (h.unique h').1
  · intro sign negative ns n s ms c hsign hn hs hc htext
    exact ofInput_of_parts hsign hn hs hc htext

/-- The first sign belongs to an exponent, the second one stands between the parts, and the third one is again an
exponent's; without digits after it no sign is an exponent's. -/
theorem ofInput_by_form_of_exponents :
    ofInput " 1e+5 - 2.5e-3 i" = .ok (ofParts (Double.nearest (exact ⟨['1'], [], 5⟩))
      (-Double.nearest (exact ⟨['2'], ['5'], -3⟩))) ∧
    (∀ rs s ms x c, Splits "1e+5-2.5e-3i".toList rs s ms x c → rs = "1e+5".toList ∧ s = '-' ∧ ms = "2.5e-3".toList) ∧
    (∀ f x y, HasForm "1e+5-2.5e-3i".toList f x y → f = .sum) ∧
    ofInput "1e + i" = .error (.invalidLiteral "1e + i") ∧ ∀ f x y, ¬ HasForm "1e+i".toList f x y := by
  obtain ⟨-, hform, hsum, hsplits, hparts, -⟩ := ofInput_by_form " 1e+5 - 2.5e-3 i"
  obtain ⟨-, -, -, -, -, herror⟩ := ofInput_by_form "1e + i"
  have hreal : Spells "1e+5".toList ⟨['1'], [], 5⟩ := spells_iff.2 (by decide +kernel)
  have himaginary : Spells "2.5e-3".toList ⟨['2'], ['5'], -3⟩ := spells_iff.2 (by decide +kernel)
  have hsplit : Splits "1e+5-2.5e-3i".toList "1e+5".toList '-' "2.5e-3".toList _ _ :=
    ⟨by decide +kernel, .mk .none hreal, .inr rfl, .numeral himaginary⟩
  have hrefused : ofInput "1e + i" = .error (.invalidLiteral "1e + i") := by decide +kernel
  have hsqueeze : squeeze "1e + i".toList = "1e+i".toList := by decide +kernel
  refine ⟨?_, fun rs s ms x c h => hsplits _ _ _ _ _ _ _ _ _ _ _ h hsplit, fun f x y h => ?_, hrefused, ?_⟩
  · exact hparts [] false _ _ '-' _ _ .none hreal (.inr rfl) (.inr ⟨_, himaginary, rfl⟩) (by decide +kernel)
  · exact (hform _ _ _ _ _ _ _ h ((hsum _ _ _).2 ⟨_, _, _, _, hsplit, rfl⟩)).1
  · rw [← hsqueeze]
    exact ((herror _).1 hrefused).1

end Complex
end Phasor
