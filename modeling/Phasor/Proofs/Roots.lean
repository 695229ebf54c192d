import Phasor.Proofs.Lengths
import Phasor.Proofs.Literals
import Phasor.Proofs.RootFaults

/-!
# Roots that are not finite

The reciprocal of a degree is a finite double with the sign of the degree (`Double.reciprocal_of_exact`), so a finite
length has a finite power, and the cosine and the sine of a finite angle make it no greater. An infinite length stays
infinite under a positive power and becomes zero under a negative one. So a root of a finite number overflows exactly if
the length of the number does and the degree is positive (`applyRoot_overflows_iff`).
-/

namespace Phasor

namespace Double

open Float.Model Float.Model.UnpackedFloat

variable {x y a r : Float}

/-! ### Reciprocals of degrees -/

theorem roundsTo_nearestRatio (n : ℕ) {d : ℕ} (hd : 0 < d) : RoundsTo (nearestRatio n d) (n / d) := by
  rcases n.eq_zero_or_pos with rfl | hn
  · rw [Nat.cast_zero, zero_div]
    exact roundsTo_zero rfl
  · have hratio : (nearestRatio n d).toModel =
        .pack (UnpackedFloat.div .binary64 (.finite .positive n 0 hn) (.finite .positive d 0 hd)) := by
      rw [nearestRatio, dif_pos hn, dif_pos hd]
      rfl
    rw [div_finite .positive .positive hn hd] at hratio
    refine ⟨_, _, by positivity, ?_, hratio⟩
    rw [zpow_zero, mul_one, mul_one, show Sign.positive / Sign.positive = .positive from rfl, factor, one_mul]

/-- The reciprocal of a degree is far from the limit and not too small for a double. -/
theorem reciprocal_of_exact {n : ℤ} (h : Exact n) (hn : n ≠ 0) : (Scalar.int n).reciprocal.isFinite = true ∧
    (0 < n → 0 < value (Scalar.int n).reciprocal) ∧ (n < 0 → value (Scalar.int n).reciprocal < 0) := by
  have hone : (1 : ℚ) ≤ n.natAbs := by exact_mod_cast Int.natAbs_pos.2 hn
  have hlarge : (n.natAbs : ℚ) < 2 ^ (1024 : ℤ) := by
    rw [← abs_value_ofInt h]
    exact (abs_value_lt_limit (ofInt_of_exact h).1).trans limit_lt
  have hratio : RoundsTo (nearestRatio 1 n.natAbs) (1 / n.natAbs) := by
    have := roundsTo_nearestRatio 1 (Int.natAbs_pos.2 hn)
    rwa [Nat.cast_one] at this
  have hpos : (0 : ℚ) < 1 / n.natAbs := one_div_pos.2 (one_pos.trans_le hone)
  have hfinite : (nearestRatio 1 n.natAbs).isFinite = true := by
    refine hratio.isFinite_iff.2 ?_
    rw [abs_of_pos hpos]
    exact ((div_le_one (one_pos.trans_le hone)).2 hone).trans_lt
      ((one_lt_zpow₀ one_lt_two (by decide)).trans_le le_limit)
  have hleast : (2 : ℚ) ^ (-1024 : ℤ) ≤ |1 / (n.natAbs : ℚ)| := by
    rw [abs_of_pos hpos, zpow_neg, ← one_div]
    exact one_div_le_one_div_of_le (one_pos.trans_le hone) hlarge.le
  have hvalue : 0 < value (nearestRatio 1 n.natAbs) := by
    rw [← abs_of_nonneg (hratio.nonneg hfinite hpos.le)]
    exact (zpow_pos two_pos _).trans_le (hratio.zpow_le hfinite (by decide) hleast)
  rcases lt_or_ge n 0 with hneg | hnonneg
  · have heq : (Scalar.int n).reciprocal = -nearestRatio 1 n.natAbs := if_pos hneg
    rw [heq, value_neg]
    exact ⟨isFinite_neg_iff.2 hfinite, fun h => absurd h hneg.asymm, fun _ => neg_neg_of_pos hvalue⟩
  · have heq : (Scalar.int n).reciprocal = nearestRatio 1 n.natAbs := if_neg hnonneg.not_gt
    rw [heq]
    exact ⟨hfinite, fun _ => hvalue, fun h => absurd h hnonneg.not_gt⟩

/-! ### Products with a cosine or a sine -/

theorem isFinite_mul_of_abs_le_one (hx : x.isFinite = true) (h : y.abs ≤ 1) : (x * y).isFinite = true := by
  obtain ⟨hy, hle⟩ := isFinite_of_abs_le (by decide) h
  rw [value_one] at hle
  refine (roundsTo_mul hx hy).isFinite_iff.2 ?_
  rw [abs_mul]
  exact (mul_le_of_le_one_right (abs_nonneg _) hle).trans_lt (abs_value_lt_limit hx)

theorem not_isFinite_infinity_mul (y : Float) : (1 / 0 * y).isFinite = false := by
  have hinfinity : (1 / 0 : Float).toModel.unpack = .infinity .positive := by rfl
  rw [Bool.eq_false_iff]
  intro h
  have hproduct : (UnpackedFloat.mul .binary64 (1 / 0 : Float).toModel.unpack y.toModel.unpack).isFinite = true :=
    isFinite_of_pack h
  rw [hinfinity] at hproduct
  cases hy : y.toModel.unpack <;> rw [hy] at hproduct <;> exact absurd hproduct Bool.false_ne_true

end Double

open Double (value Exact)

/-! ### Powers of lengths -/

section

variable [Elementary] (laws : Elementary.Lawful) {r a m : Float}

include laws

/-- A finite length has a finite power or none. -/
theorem isFinite_of_realPower (hr : r.isFinite = true) (hnonneg : 0 ≤ r) (ha : a.isFinite = true)
    (h : realPower r a = .ok m) : m.isFinite = true := by
  unfold realPower at h
  split at h
  · exact absurd h (by simp)
  dsimp only at h
  split at h
  · exact absurd h (by simp)
  · rename_i hinf
    obtain rfl := Except.ok.inj h
    rw [hr, ha, Bool.and_true, Bool.and_true] at hinf
    have hnan := (Double.le_iff_not_lt.1 (laws.pow_nonneg r a hnonneg ha)).2.1
    rcases Double.isFinite_trichotomy (Elementary.pow r a) with h | h | h
    · exact absurd (hnan.symm.trans h) Bool.false_ne_true
    · exact absurd h hinf
    · exact h

theorem realPower_infinity (ha : 0 < a) : realPower (1 / 0) a = .ok (1 / 0) := by
  have hpow := laws.pow_infinity a ha
  rw [realPower, hpow]
  rfl

theorem realPower_infinity_of_neg (ha : a < 0) : realPower (1 / 0) a = .ok 0 := by
  have hpow := laws.pow_infinity_of_neg a ha
  rw [realPower, hpow]
  rfl

end

namespace Complex

variable [Elementary] (laws : Elementary.Lawful) {z w p : Complex} {n : ℤ}

include laws

theorem isFinite_angle_div (hz : z.isFinite = true) {x : Float} (hx : x.isFinite = true) (hone : 1 ≤ |value x|) :
    (z.angle / x).isFinite = true := by
  obtain ⟨hre, him⟩ := isFinite_iff.1 hz
  have hangle := laws.atan2_range z.im z.re (Double.isNaN_of_isFinite him) (Double.isNaN_of_isFinite hre)
  exact Double.isFinite_div_of_one_le (Double.isFinite_of_abs_le (by rfl) hangle).1 hx hone

/-- The length of a finite number is infinite, or finite and not below zero. -/
theorem magnitude_cases (hz : z.isFinite = true) :
    z.magnitude = 1 / 0 ∨ z.magnitude.isFinite = true ∧ 0 ≤ z.magnitude := by
  obtain ⟨hre, him⟩ := isFinite_iff.1 hz
  rcases laws.hypot_cases hre him with hinf | ⟨hfinite, hle, -⟩
  · exact .inl (Double.eq_of_unpack hinf)
  · refine .inr ⟨hfinite, Double.le_iff_not_lt.2 ⟨rfl, Double.isNaN_of_isFinite hfinite, ?_⟩⟩
    exact (Double.not_lt_zero_iff hfinite).2 ((abs_nonneg _).trans hle)

/-- A finite number has a root that is not finite exactly if its length is infinite and the degree positive. -/
theorem nthRoot_overflows_iff (hz : z.isFinite = true) (hn : n ≠ 0) (hexact : Exact n) :
    (∃ p, z.nthRoot (.int n) = .ok p ∧ p.isFinite = false) ↔ 0 < n ∧ z.magnitude.isFinite = false := by
  obtain ⟨hfinite, hpos, hneg⟩ := Double.reciprocal_of_exact hexact hn
  have hangle := isFinite_angle_div laws hz (Double.ofInt_of_exact hexact).1 (Double.one_le_abs_value_ofInt hexact hn)
  have hparts {m : Float} (hm : m.isFinite = true) : (ofParts (m * Elementary.cos (z.angle / Float.ofInt n))
      (m * Elementary.sin (z.angle / Float.ofInt n))).isFinite = true :=
    isFinite_ofParts_iff.2 ⟨Double.isFinite_mul_of_abs_le_one hm (laws.cos_range _ hangle),
      Double.isFinite_mul_of_abs_le_one hm (laws.sin_range _ hangle)⟩
  rw [nthRoot_eq laws z hn hexact]
  rcases magnitude_cases laws hz with hinf | ⟨hlength, hnonneg⟩
  · rw [hinf]
    rcases lt_or_gt_of_ne hn with hlt | hgt
    · rw [realPower_infinity_of_neg laws ((Double.lt_iff_value hfinite rfl).2 (hneg hlt))]
      refine iff_of_false ?_ fun h => absurd h.1 hlt.asymm
      rintro ⟨p, hp, hnot⟩
      obtain rfl := Except.ok.inj hp
      exact absurd ((hparts rfl).symm.trans hnot) (by decide)
    · rw [realPower_infinity laws ((Double.lt_iff_value rfl hfinite).2 (hpos hgt))]
      refine iff_of_true ⟨_, rfl, ?_⟩ ⟨hgt, rfl⟩
      rw [isFinite_ofParts, Double.not_isFinite_infinity_mul, Bool.false_and]
  · rw [hlength]
    refine iff_of_false ?_ fun h => absurd h.2 (by decide)
    rintro ⟨p, hp, hnot⟩
    cases hpower : realPower z.magnitude (Scalar.int n).reciprocal with
    | error f =>
      rw [hpower] at hp
      cases f <;> exact absurd hp (by simp)
    | ok m =>
      rw [hpower] at hp
      obtain rfl := Except.ok.inj hp
      have hm := hparts (isFinite_of_realPower laws hlength hnonneg hfinite hpower)
      exact absurd (hm.symm.trans hnot) (by decide)

end Complex

/-- The degree is rounded to an integer before. -/
theorem applyRoot_overflows_iff [Elementary] (laws : Elementary.Lawful) {z degree : Complex} (hz : z.isFinite = true) :
    (∃ p, applyRoot z degree = .ok p ∧ p.isFinite = false) ↔ ¬ degree.im.abs > degreeBound ∧
      ∃ n, roundHalfUp degree.re = .ok n ∧ 0 < n ∧ z.magnitude.isFinite = false := by
  unfold applyRoot
  split
  · rename_i him
    exact iff_of_false (by simp) fun h => h.1 him
  rename_i him
  rw [and_iff_right him]
  cases hdegree : roundHalfUp degree.re with
  | error f => simp
  | ok n =>
    simp only [Except.ok.injEq, exists_eq_left']
    by_cases hn : n = 0
    · subst hn
      exact iff_of_false (by simp [Complex.nthRoot, Scalar.isZero]) fun h => absurd h.1 (lt_irrefl 0)
    · exact Complex.nthRoot_overflows_iff laws hz hn ((exact_of_roundHalfUp hdegree).resolve_left hn)

end Phasor
