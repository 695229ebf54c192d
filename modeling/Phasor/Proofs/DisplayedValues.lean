import Phasor.Complex
import Phasor.Proofs.Literals
import Phasor.Proofs.ShownDoubles

/-!
# Displayed values are input

The text of a finite complex number is input again: a real number, or a sum whose imaginary part has a sign of its own.
Main statement: it is read as the number rounded to ten places in both parts (`ofInput_text`).
-/

namespace Phasor.Complex

open Float.Model Float.Model.UnpackedFloat
open Numeral Decimal

variable {x : Float} {s : Sign} {m : ℕ} {e : ℤ} {hm : 0 < m}

/-! ### What is shown as zero -/

theorem unpack_shownZero : shownZero.toModel.unpack = .finite .positive 4951760157141521 (-92) (by decide) := by
  rfl

theorem abs_lt_shownZero (h : x.toModel.unpack = .zero s) : x.abs < shownZero := by
  rw [Double.lt_iff_unpack, Double.unpack_abs_of_zero h, unpack_shownZero]
  rfl

theorem not_abs_lt_shownZero (h : x.toModel.unpack = .finite s m e hm) (he : -86 ≤ e) : ¬ x.abs < shownZero :=
  Double.not_lt_of_exponent_lt (Double.unpack_abs h) unpack_shownZero (by omega)

/-! ### The parts of the text -/

theorem signText_minus (s : Sign) : SignText (minus s) (s == .negative) := by
  cases s with
  | negative => exact .minus
  | positive => exact .none

theorem realText_real (h : x.toModel.unpack = .finite s m e hm) : RealText (Decimal.real x).toList x := by
  obtain ⟨body, q, htext, ⟨n, hn, rfl⟩, hvalue⟩ := exists_toList_real h
  have hreal := RealText.mk (signText_minus s) hn
  rwa [← htext, value_eq_nearest, hvalue, Double.withSign_abs h] at hreal

theorem realText_zero : RealText "0".toList 0 :=
  real?_eq_some_iff.1 (by rfl)

/-- A part of a displayed number. -/
def shownReal (x : Float) : String := if x.abs < shownZero then "0" else Decimal.real x

/-- The part is read back, zeros as a positive zero. -/
theorem exists_realText_shownReal (h : x.isFinite = true) :
    ∃ y, RealText (shownReal (roundPlaces 10 x)).toList y ∧ y + 0 = roundPlaces 10 x + 0 := by
  unfold shownReal
  rcases roundPlaces_cases h with ⟨s, hzero⟩ | ⟨s, m, e, hm, hfinite, he⟩
  · rw [if_pos (abs_lt_shownZero hzero), Double.add_zero_of_zero hzero]
    exact ⟨0, realText_zero, rfl⟩
  · rw [if_neg (not_abs_lt_shownZero hfinite he)]
    exact ⟨_, realText_real hfinite, rfl⟩

/-- The imaginary part of a displayed number, with its sign. -/
def shownImaginary (y : Float) : String :=
  (if y ≥ 0 then "+" else "-") ++ (if y.abs == 1 then "" else Decimal.real y.abs) ++ "i"

theorem coefficient_abs (h : x.toModel.unpack = .finite s m e hm) :
    Coefficient (if x.abs == 1 then "" else Decimal.real x.abs).toList x.abs := by
  have hone : (1 : Float).toModel.unpack = .finite .positive (2 ^ 52) (-52) (by decide) := by rfl
  split
  · rename_i hbeq
    rw [Double.eq_of_beq_finite hone hbeq]
    exact .unit
  · obtain ⟨body, q, htext, ⟨n, hn, rfl⟩, hvalue⟩ := exists_toList_real (Double.unpack_abs h)
    have habs : x.abs.abs = x.abs := Double.eq_of_unpack ((Double.unpack_abs (Double.unpack_abs h)).trans
      (Double.unpack_abs h).symm)
    have hcoefficient := Coefficient.numeral hn
    rw [value_eq_nearest, hvalue, habs] at hcoefficient
    rw [htext]
    exact hcoefficient

theorem imaginaryText_shownImaginary (h : x.toModel.unpack = .finite s m e hm) :
    ImaginaryText (shownImaginary x).toList x ∧ ∀ c ∈ (shownImaginary x).toList.head?, c = '+' ∨ c = '-' := by
  obtain ⟨sign, htext, hsign, hhead⟩ : ∃ sign, (if x ≥ 0 then "+" else "-").toList = sign ∧
      SignText sign (s == .negative) ∧ (sign = ['+'] ∨ sign = ['-']) := by
    cases s with
    | negative =>
      have hneg : ¬ x ≥ 0 := fun hle => absurd ((Double.le_iff_of_finite h).1 hle) (by simp)
      rw [if_neg hneg]
      exact ⟨_, rfl, .minus, .inr rfl⟩
    | positive =>
      rw [if_pos ((Double.le_iff_of_finite h).2 rfl)]
      exact ⟨_, rfl, .plus, .inl rfl⟩
  have himaginary := ImaginaryText.mk hsign (coefficient_abs h)
  rw [Double.withSign_abs h, ← htext] at himaginary
  have hlist : (shownImaginary x).toList = sign ++ ((if x.abs == 1 then "" else Decimal.real x.abs).toList ++ ['i']) := by
    rw [shownImaginary, String.toList_append, String.toList_append, htext, List.append_assoc]
    rfl
  rw [hlist, ← htext]
  refine ⟨himaginary, ?_⟩
  rw [htext]
  rcases hhead with rfl | rfl <;> simp

/-! ### The whole text -/

theorem text_eq (z : Complex) : z.text =
    if (roundPlaces 10 z.im).abs < shownZero then shownReal (roundPlaces 10 z.re)
    else shownReal (roundPlaces 10 z.re) ++ shownImaginary (roundPlaces 10 z.im) := by
  have hsum : shownReal (roundPlaces 10 z.re) ++ shownImaginary (roundPlaces 10 z.im) =
      shownReal (roundPlaces 10 z.re) ++ (if roundPlaces 10 z.im ≥ 0 then "+" else "-") ++
        (if (roundPlaces 10 z.im).abs == 1 then "" else Decimal.real (roundPlaces 10 z.im).abs) ++ "i" := by
    rw [shownImaginary, String.append_assoc, String.append_assoc, String.append_assoc]
  rw [hsum]
  rfl

/-- What is displayed can be typed in again: it is read as the number rounded to ten places in both parts. -/
theorem ofInput_text (z : Complex) (h : z.isFinite = true) :
    ofInput z.text = .ok (ofParts (roundPlaces 10 z.re) (roundPlaces 10 z.im)) := by
  obtain ⟨hre, him⟩ := Bool.and_eq_true_iff.1 h
  obtain ⟨x, hx, hreal⟩ := exists_realText_shownReal hre
  rw [text_eq, ofParts, ← hreal]
  rcases roundPlaces_cases him with ⟨s, hzero⟩ | ⟨s, m, e, hm, hfinite, he⟩
  · have hsqueeze := squeeze_eq_self_of_isNumberChar (isNumberChar_of_realText hx)
    rw [if_pos (abs_lt_shownZero hzero), ofInput_of_realText (hsqueeze.symm ▸ hx), Double.add_zero_of_zero hzero]
    rfl
  · obtain ⟨hy, hhead⟩ := imaginaryText_shownImaginary hfinite
    have hsum := SumText.mk hx hy hhead
    have hsqueeze := squeeze_eq_self_of_isNumberChar (isNumberChar_of_sumText hsum)
    rw [if_neg (not_abs_lt_shownZero hfinite he)]
    rw [← String.toList_append] at hsum hsqueeze
    rw [ofInput_of_sumText (hsqueeze.symm ▸ hsum)]
    rfl

theorem ofInput_text_of_scientific : Complex.isFinite ⟨-1.5e-7, 1e22⟩ = true ∧
    text ⟨-1.5e-7, 1e22⟩ = "-1.5e-07+10000000000000000000000i" ∧
    ofInput "-1.5e-07+10000000000000000000000i" = .ok ⟨-1.5e-7, 1e22⟩ := by
  have hfinite : Complex.isFinite ⟨-1.5e-7, 1e22⟩ = true := by decide +kernel
  have htext : text ⟨-1.5e-7, 1e22⟩ = "-1.5e-07+10000000000000000000000i" := by decide +kernel
  have hrounded : ofParts (roundPlaces 10 (-1.5e-7)) (roundPlaces 10 1e22) = ⟨-1.5e-7, 1e22⟩ := by decide +kernel
  have hread := ofInput_text ⟨-1.5e-7, 1e22⟩ hfinite
  rw [htext, hrounded] at hread
  exact ⟨hfinite, htext, hread⟩

end Phasor.Complex
