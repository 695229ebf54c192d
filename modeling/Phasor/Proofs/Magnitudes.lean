import Mathlib
import Phasor.Numeral
import Phasor.Proofs.Nearest

/-!
# Signs and magnitudes of doubles

A finite double is its magnitude with a sign (`withSign_abs`), and the magnitude is the double nearest to its own value
(`nearest_eq_self`). Equal finite doubles that are not zero are the same (`eq_of_beq_finite`).
-/

namespace Phasor.Double

open Float.Model Float.Model.UnpackedFloat
open Numeral (withSign)

variable {x y : Float} {s : Sign} {m : ℕ} {e : ℤ} {hm : 0 < m}

theorem unpack_abs (h : x.toModel.unpack = .finite s m e hm) : x.abs.toModel.unpack = .finite .positive m e hm := by
  show (Float.Model.pack x.toModel.unpack.abs).unpack = _
  rw [h]
  exact unpack_pack .positive (onGrid_of_unpack h)

theorem unpack_abs_of_zero (h : x.toModel.unpack = .zero s) : x.abs.toModel.unpack = .zero .positive := by
  show (Float.Model.pack x.toModel.unpack.abs).unpack = _
  rw [h]
  cases s <;> rfl

theorem withSign_abs (h : x.toModel.unpack = .finite s m e hm) : withSign (s == .negative) x.abs = x := by
  have habs := unpack_abs h
  refine eq_of_unpack ?_
  cases s with
  | negative =>
    show (-x.abs).toModel.unpack = _
    rw [unpack_neg, habs, h]
    rfl
  | positive => exact habs.trans h.symm

theorem unpack_withSign (negative : Bool) (h : x.toModel.unpack = .finite .positive m e hm) :
    (withSign negative x).toModel.unpack = .finite (if negative then .negative else .positive) m e hm := by
  cases negative with
  | true => exact (unpack_neg x).trans (congrArg UnpackedFloat.neg h)
  | false => exact h

theorem nearest_eq_self (h : x.toModel.unpack = .finite .positive m e hm) : nearest (m * 2 ^ e) = x :=
  eq_of_unpack ((nearest_of_onGrid (onGrid_of_unpack h)).trans h.symm)

/-! ### Comparisons -/

theorem compare_finite_eq {s s' : Sign} {m m' : ℕ} {e e' : ℤ} {hm : 0 < m} {hm' : 0 < m'}
    (h : (UnpackedFloat.finite s m e hm).compare (.finite s' m' e' hm') = some .eq) :
    UnpackedFloat.finite s m e hm = .finite s' m' e' hm' := by
  have hsame : s = s' ∧ (compare e e').then (compare m m') = .eq := by
    cases s with
    | negative =>
      cases s' with
      | negative => exact ⟨rfl, Ordering.swap_eq_eq.1 (Option.some.inj h)⟩
      | positive => exact absurd h (by simp [UnpackedFloat.compare])
    | positive =>
      cases s' with
      | negative => exact absurd h (by simp [UnpackedFloat.compare])
      | positive => exact ⟨rfl, Option.some.inj h⟩
  obtain ⟨rfl, hthen⟩ := hsame
  rw [Ordering.then_eq_eq, Int.compare_eq_eq, Nat.compare_eq_eq] at hthen
  obtain ⟨rfl, rfl⟩ := hthen
  rfl

/-- Equal doubles are the same, zeros apart. -/
theorem eq_of_beq_finite (h : x.toModel.unpack = .finite s m e hm) (hbeq : (y == x) = true) : y = x := by
  have hcompare : y.toModel.unpack.compare x.toModel.unpack = some .eq := eq_of_beq hbeq
  refine eq_of_unpack ?_
  rw [h] at hcompare ⊢
  cases hy : y.toModel.unpack with
  | notANumber =>
    rw [hy] at hcompare
    exact absurd hcompare (by simp [UnpackedFloat.compare])
  | infinity s' =>
    rw [hy] at hcompare
    cases s' <;> exact absurd hcompare (by simp [UnpackedFloat.compare])
  | zero s' =>
    rw [hy] at hcompare
    cases s <;> exact absurd hcompare (by simp [UnpackedFloat.compare])
  | finite s' m' e' hm' =>
    rw [hy] at hcompare
    exact compare_finite_eq hcompare

theorem lt_iff_unpack : x < y ↔ x.toModel.unpack.compare y.toModel.unpack = some .lt := by
  have hlt : x < y ↔ x.toModel.unpack.lt y.toModel.unpack = true := decide_eq_true_iff
  rw [hlt, UnpackedFloat.lt, beq_iff_eq]

/-- Of two positive doubles the one with the greater exponent is the greater. -/
theorem not_lt_of_exponent_lt {m' : ℕ} {e' : ℤ} {hm' : 0 < m'} (h : x.toModel.unpack = .finite .positive m e hm)
    (hy : y.toModel.unpack = .finite .positive m' e' hm') (hlt : e' < e) : ¬ x < y := by
  rw [lt_iff_unpack, h, hy, UnpackedFloat.compare, Int.compare_eq_gt.2 hlt]
  simp

theorem le_iff_of_finite (h : x.toModel.unpack = .finite s m e hm) : 0 ≤ x ↔ s = .positive := by
  have hle : 0 ≤ x ↔ (UnpackedFloat.zero .positive).le (.finite s m e hm) = true := by
    rw [← h]
    exact decide_eq_true_iff
  rw [hle]
  cases s <;> simp [UnpackedFloat.le, UnpackedFloat.compare]

end Phasor.Double
