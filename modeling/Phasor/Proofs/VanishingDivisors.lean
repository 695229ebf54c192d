import Phasor.Proofs.Overflows

/-!
# Divisors that vanish

A quotient fails where the square of the divisor's length is a zero. The squares of both parts are rounded before, so this
is the case exactly if neither is more than half the least positive double (`Complex.div_eq_zeroDivisor_iff`), which
numbers below `2^(-538)` are that are no zeros. A power with a negative integer exponent fails where the opposite power
is such a number (`Complex.intPower_eq_zeroDivisor_iff`).
-/

namespace Phasor

namespace Double

open Float.Model Float.Model.UnpackedFloat

variable {x y : Float} {q : ℚ}

/-! ### Values of zero -/

theorem RoundsTo.value_eq_zero_iff (h : RoundsTo x q) (hx : x.isFinite = true) :
    value x = 0 ↔ 2 * |q| ≤ 2 ^ (-1074 : ℤ) := by
  obtain ⟨s, -, hvalue⟩ := h.value_eq hx
  have hfactor : factor s ≠ 0 := abs_pos.1 (by rw [abs_factor]; exact one_pos)
  rw [hvalue, mul_eq_zero_iff_left hfactor, ← rounded_eq_zero_iff s (abs_nonneg q)]
  rcases onGrid_rounded s (abs_nonneg q) (h.isFinite_iff.1 hx) with hzero | ⟨m, e, hgrid, hfinite⟩
  · rw [hzero]
    exact iff_of_true rfl rfl
  · rw [hfinite]
    have hpos : (0 : ℚ) < m := by exact_mod_cast hgrid.pos
    exact iff_of_false (mul_pos hpos (zpow_pos two_pos e)).ne' (by simp)

theorem beq_zero_iff (h : x.isFinite = true) : (x == 0) = true ↔ value x = 0 := by
  rcases finite_cases h with ⟨s, hx⟩ | ⟨s, m, e, hgrid, hx⟩
  · refine iff_of_true ?_ (value_of_zero hx)
    show (x.toModel.unpack.beq (.zero .positive)) = true
    rw [hx]
    rfl
  · refine iff_of_false (fun hbeq => ?_) ?_
    · have hbeq : x.toModel.unpack.beq (.zero .positive) = true := hbeq
      rw [hx] at hbeq
      cases s <;> exact absurd hbeq (by simp [UnpackedFloat.beq, UnpackedFloat.compare])
    · have hpos : (0 : ℚ) < m := by exact_mod_cast hgrid.pos
      refine abs_pos.1 ?_
      rw [abs_value_of_finite hx]
      exact mul_pos hpos (zpow_pos two_pos e)

theorem isFinite_of_beq_zero (h : (x == 0) = true) : x.isFinite = true := by
  have hbeq : x.toModel.unpack.beq (.zero .positive) = true := h
  show x.toModel.unpack.isFinite = true
  cases hx : x.toModel.unpack with
  | notANumber => rw [hx] at hbeq; exact absurd hbeq (by decide)
  | infinity s => rw [hx] at hbeq; cases s <;> exact absurd hbeq (by decide)
  | zero s => rfl
  | finite s m e hm => rfl

theorem value_of_beq_zero (h : (x == 0) = true) : value x = 0 :=
  (beq_zero_iff (isFinite_of_beq_zero h)).1 h

theorem beq_zero_of_roundsTo (h : RoundsTo x 0) : (x == 0) = true := by
  obtain ⟨hfinite, hvalue⟩ := h.exact (y := 0) (by decide) rfl
  exact (beq_zero_iff hfinite).2 hvalue

theorem beq_zero_add (hx : (x == 0) = true) (hy : (y == 0) = true) : (x + y == 0) = true := by
  refine beq_zero_of_roundsTo ?_
  have h := roundsTo_add (isFinite_of_beq_zero hx) (isFinite_of_beq_zero hy)
  rwa [value_of_beq_zero hx, value_of_beq_zero hy, add_zero] at h

theorem beq_zero_sub (hx : (x == 0) = true) (hy : (y == 0) = true) : (x - y == 0) = true := by
  refine beq_zero_of_roundsTo ?_
  have h := roundsTo_sub (isFinite_of_beq_zero hx) (isFinite_of_beq_zero hy)
  rwa [value_of_beq_zero hx, value_of_beq_zero hy, sub_zero] at h

/-! ### Sums of squares -/

theorem value_eq_zero_or (h : x.isFinite = true) : value x = 0 ∨ 2 ^ (-1074 : ℤ) ≤ |value x| := by
  cases hbeq : x == 0 with
  | true => exact .inl ((beq_zero_iff h).1 hbeq)
  | false => exact .inr (zpow_le_abs_value h hbeq)

theorem add_eq_zero_iff (hx : x.isFinite = true) (hy : y.isFinite = true) (hxpos : 0 ≤ value x) (hypos : 0 ≤ value y)
    (h : (x + y).isFinite = true) : value (x + y) = 0 ↔ value x = 0 ∧ value y = 0 := by
  have hleast : (0 : ℚ) < 2 ^ (-1074 : ℤ) := zpow_pos two_pos _
  rw [(roundsTo_add hx hy).value_eq_zero_iff h, abs_of_nonneg (add_nonneg hxpos hypos)]
  constructor
  · -- a part that is no zero is the least positive double already
    intro hsum
    refine ⟨(value_eq_zero_or hx).resolve_right fun hle => ?_, (value_eq_zero_or hy).resolve_right fun hle => ?_⟩
    · rw [abs_of_nonneg hxpos] at hle
      linarith
    · rw [abs_of_nonneg hypos] at hle
      linarith
  · rintro ⟨hx, hy⟩
    rw [hx, hy, add_zero, mul_zero]
    exact hleast.le

theorem square_of_small (hx : x.isFinite = true) (h : 2 * value x ^ 2 ≤ 2 ^ (-1074 : ℤ)) :
    (x * x).isFinite = true ∧ value (x * x) = 0 := by
  have hproduct := roundsTo_mul hx hx
  rw [← sq] at hproduct
  have habs : |value x ^ 2| = value x ^ 2 := abs_of_nonneg (sq_nonneg _)
  have hlimit : value x ^ 2 < limit :=
    calc value x ^ 2 ≤ 2 * value x ^ 2 := le_mul_of_one_le_left (sq_nonneg _) one_le_two
      _ ≤ 2 ^ (-1074 : ℤ) := h
      _ ≤ 2 ^ (1022 : ℤ) := zpow_le_zpow_right₀ one_le_two (by decide)
      _ < 2 ^ (1023 : ℤ) := zpow_lt_zpow_right₀ one_lt_two (by decide)
      _ ≤ limit := le_limit
  have hfinite := hproduct.isFinite_iff.2 (habs.symm ▸ hlimit)
  exact ⟨hfinite, (hproduct.value_eq_zero_iff hfinite).2 (habs.symm ▸ h)⟩

/-- The length of a number vanishes if the squares of both parts do. -/
theorem sum_of_squares_eq_zero_iff (hx : x.isFinite = true) (hy : y.isFinite = true) :
    (x * x + y * y == 0) = true ↔ 2 * value x ^ 2 ≤ 2 ^ (-1074 : ℤ) ∧ 2 * value y ^ 2 ≤ 2 ^ (-1074 : ℤ) := by
  have hsquare : ∀ {u : Float}, u.isFinite = true → (u * u).isFinite = true →
      0 ≤ value (u * u) ∧ (value (u * u) = 0 ↔ 2 * value u ^ 2 ≤ 2 ^ (-1074 : ℤ)) := fun {u} hu huu => by
    have hproduct := roundsTo_mul hu hu
    refine ⟨hproduct.nonneg huu (mul_self_nonneg _), ?_⟩
    rw [hproduct.value_eq_zero_iff huu, ← sq, abs_of_nonneg (sq_nonneg _)]
  constructor
  · intro h
    have hsum := isFinite_of_beq_zero h
    rcases sum_of_squares_cases hx hy with ⟨-, hxx, hyy⟩ | hinf
    · obtain ⟨hxpos, hxzero⟩ := hsquare hx hxx
      obtain ⟨hypos, hyzero⟩ := hsquare hy hyy
      rw [← hxzero, ← hyzero, ← add_eq_zero_iff hxx hyy hxpos hypos hsum]
      exact (beq_zero_iff hsum).1 h
    · have hfinite : (x * x + y * y).toModel.unpack.isFinite = true := hsum
      rw [hinf] at hfinite
      exact absurd hfinite Bool.false_ne_true
  · rintro ⟨hxsmall, hysmall⟩
    obtain ⟨hxx, hxzero⟩ := square_of_small hx hxsmall
    obtain ⟨hyy, hyzero⟩ := square_of_small hy hysmall
    have hsum : (x * x + y * y).isFinite = true := by
      refine isFinite_add_iff.2 ⟨hxx, hyy, ?_⟩
      rw [hxzero, hyzero, add_zero, abs_zero]
      exact (zpow_pos two_pos _).trans_le le_limit
    rw [beq_zero_iff hsum, add_eq_zero_iff hxx hyy hxzero.ge hyzero.ge hsum]
    exact ⟨hxzero, hyzero⟩

end Double
namespace Complex

open Double (value)

variable {z w p acc : Complex} {n : ℕ}

/-- The square of the length is rounded to zero: the squares of both parts are at most half the least positive double. -/
def Vanishes (z : Complex) : Prop :=
  2 * value z.re ^ 2 ≤ 2 ^ (-1074 : ℤ) ∧ 2 * value z.im ^ 2 ≤ 2 ^ (-1074 : ℤ)

theorem div_eq_zeroDivisor_iff (hw : w.isFinite = true) : z.div w = .error .zeroDivisor ↔ w.Vanishes := by
  obtain ⟨hre, him⟩ := isFinite_iff.1 hw
  rw [Vanishes, ← Double.sum_of_squares_eq_zero_iff hre him, div]
  split
  · rename_i hzero
    exact iff_of_true rfl hzero
  · rename_i hne
    exact iff_of_false (by simp) hne

/-- Only a power that is inverted divides, by the opposite power. -/
theorem intPower_eq_zeroDivisor_iff {n : ℤ} (hn : n < 0) :
    z.intPower n = .error .zeroDivisor ↔ ∃ p, z.intPower (-n) = .ok p ∧ p.Vanishes := by
  rw [intPower, intPower, Int.natAbs_neg]
  cases hp : mulTimes z n.natAbs one with
  | none => simp
  | some p =>
    have hfinite : p.isFinite = true := isFinite_of_mulTimes (by decide) hp
    have hopposite : ¬ -n < 0 := by omega
    simp only [if_pos hn, if_neg hopposite, Except.ok.injEq, exists_eq_left', div_eq_zeroDivisor_iff hfinite]

/-! ### Zero -/

/-- Both parts are zeros. -/
def IsZero (z : Complex) : Prop := (z.re == 0) = true ∧ (z.im == 0) = true

theorem IsZero.isFinite (h : z.IsZero) : z.isFinite = true :=
  isFinite_iff.2 ⟨Double.isFinite_of_beq_zero h.1, Double.isFinite_of_beq_zero h.2⟩

theorem IsZero.vanishes (h : z.IsZero) : z.Vanishes := by
  have hleast : (0 : ℚ) ≤ 2 ^ (-1074 : ℤ) := (zpow_pos two_pos _).le
  rw [Vanishes, Double.value_of_beq_zero h.1, Double.value_of_beq_zero h.2, zero_pow two_ne_zero, mul_zero]
  exact ⟨hleast, hleast⟩

theorem IsZero.mul (hz : z.IsZero) (hacc : acc.isFinite = true) : (acc.mul z).IsZero := by
  obtain ⟨hre, him⟩ := isFinite_iff.1 hacc
  have hproduct : ∀ {x y : Float}, x.isFinite = true → (y == 0) = true → (x * y == 0) = true := fun hx hy =>
    Double.beq_zero_of_roundsTo (by
      have h := Double.roundsTo_mul hx (Double.isFinite_of_beq_zero hy)
      rwa [Double.value_of_beq_zero hy, mul_zero] at h)
  refine ⟨Double.beq_zero_add (Double.beq_zero_sub ?_ ?_) rfl, Double.beq_zero_add (Double.beq_zero_add ?_ ?_) rfl⟩
  · exact hproduct hre hz.1
  · exact hproduct him hz.2
  · exact hproduct hre hz.2
  · exact hproduct him hz.1

theorem IsZero.exists_mulTimes (hz : z.IsZero) (n : ℕ) (hacc : acc.IsZero) :
    ∃ p, mulTimes z n acc = some p ∧ p.IsZero := by
  induction n generalizing acc with
  | zero => exact ⟨acc, rfl, hacc⟩
  | succ n ih =>
    have hmul := hz.mul hacc.isFinite
    rw [mulTimes, if_pos hmul.isFinite]
    exact ih hmul

/-- Zero has no inverse power. -/
theorem IsZero.intPower_eq (hz : z.IsZero) {n : ℤ} (hn : n < 0) : z.intPower n = .error .zeroDivisor := by
  obtain ⟨k, hk⟩ : ∃ k, n.natAbs = k + 1 := ⟨n.natAbs - 1, by omega⟩
  have hone : (one.mul z).IsZero := hz.mul (by decide)
  obtain ⟨p, hp, hzero⟩ := hz.exists_mulTimes k hone
  refine (intPower_eq_zeroDivisor_iff hn).2 ⟨p, ?_, hzero.vanishes⟩
  rw [intPower, Int.natAbs_neg, hk, mulTimes, if_pos hone.isFinite, hp]
  exact if_neg (by omega)

/-- A quotient fails exactly if the square of the divisor's length vanishes, and a power with a negative integer
exponent exactly if that of the opposite power does. A zero is a case of this and not the only one. -/
theorem fails_iff_divisor_vanishes [Elementary] (z w : Complex) :
    (w.isFinite = true → (z.div w = .error .zeroDivisor ↔ w.Vanishes)) ∧
    (∀ n : ℤ, w.intExponent? = some n → n < 0 →
      (z.power w = .error .zeroDivisor ↔ ∃ p, z.intPower (-n) = .ok p ∧ p.Vanishes)) ∧
    (w.IsZero → z.div w = .error .zeroDivisor) ∧
    (z.IsZero → ∀ n : ℤ, w.intExponent? = some n → n < 0 → z.power w = .error .zeroDivisor) := by
  have hpower : ∀ {n : ℤ}, w.intExponent? = some n → z.power w = z.intPower n := by
    intro n h
    rw [power, h]
  refine ⟨div_eq_zeroDivisor_iff, ?_, ?_, ?_⟩
  · intro n h hn
    rw [hpower h]
    exact intPower_eq_zeroDivisor_iff hn
  · intro hw
    exact (div_eq_zeroDivisor_iff hw.isFinite).2 hw.vanishes
  · intro hz n h hn
    rw [hpower h]
    exact hz.intPower_eq hn

/-- The tiny number is not zero, but it cannot divide one, and the square of its square root has no inverse. -/
theorem fails_at_tiny_divisor :
    let w : Complex := ⟨1e-200, 0⟩
    let z : Complex := ⟨1e-100, 0⟩
    w.isFinite = true ∧ one.div w = .error .zeroDivisor ∧ w.Vanishes ∧ intExponent? ⟨-2, 0⟩ = some (-2) ∧
      (∃ p, z.intPower 2 = .ok p ∧ p.Vanishes) ∧ IsZero ⟨0, -0⟩ ∧ w.div ⟨0, -0⟩ = .error .zeroDivisor := by
  intro w z
  have hfinite : w.isFinite = true := by decide +kernel
  have hfails : one.div w = .error .zeroDivisor := by decide +kernel
  have hexponent : intExponent? ⟨-2, 0⟩ = some (-2) := by decide +kernel
  have hzero : IsZero ⟨0, -0⟩ := ⟨by decide +kernel, by decide +kernel⟩
  have hvanishes := ((fails_iff_divisor_vanishes one w).1 hfinite).1 hfails
  obtain ⟨-, hpower, -, -⟩ := fails_iff_divisor_vanishes z ⟨-2, 0⟩
  obtain ⟨-, -, hdiv, -⟩ := fails_iff_divisor_vanishes w ⟨0, -0⟩
  exact ⟨hfinite, hfails, hvanishes, hexponent, (hpower (-2) hexponent (by decide)).1 (by decide +kernel), hzero,
    hdiv hzero⟩

/-- A number that is not zero cannot be divided by itself, and has no inverse. -/
theorem div_tiny_by_itself :
    let z : Complex := ⟨1e-200, 0⟩
    z.isFinite = true ∧ ¬ z.IsZero ∧ z.div z = .error .zeroDivisor ∧ intExponent? ⟨-1, 0⟩ = some (-1) ∧
      z.power ⟨-1, 0⟩ = .error .zeroDivisor := by
  intro z
  refine ⟨by decide +kernel, fun h => ?_, by decide +kernel, by decide +kernel, by decide +kernel⟩
  exact absurd h.1 (by decide +kernel)

end Complex

end Phasor
