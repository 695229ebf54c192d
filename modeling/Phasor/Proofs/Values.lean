import Phasor.Proofs.Nearest

/-!
# Arithmetic on the values of doubles

`value x` is the rational number that a finite double stands for. A sum, a difference, a product or a quotient of finite
doubles is the result on their values, rounded (`RoundsTo`). So it is finite exactly if that result is below `limit`
(`isFinite_add_iff`, `isFinite_div_iff`), and it is not less than a power of two that the result is not less than. A part
of a number over the square of its length is always finite (`isFinite_div_sum_of_squares`).
-/

namespace Phasor.Double

open Float.Model Float.Model.UnpackedFloat

/-! ### Signs and values -/

def factor : Sign → ℚ
  | .negative => -1
  | .positive => 1

variable {s s' : Sign} {m m' : ℕ} {e e' : ℤ} {hm : 0 < m} {x y : Float} {q : ℚ}

theorem factor_neg (s : Sign) : factor (-s) = -factor s := by
  cases s with
  | negative => exact (neg_neg 1).symm
  | positive => rfl

theorem factor_mul (s s' : Sign) : factor (s * s') = factor s * factor s' := by
  cases s with
  | negative =>
    rw [factor, neg_one_mul, ← factor_neg]
    cases s' <;> rfl
  | positive =>
    rw [factor, one_mul]
    cases s' <;> rfl

theorem factor_div (s s' : Sign) : factor (s / s') = factor s / factor s' := by
  have hdiv : s / s' = s * s' := by cases s <;> cases s' <;> rfl
  rw [hdiv, factor_mul, div_eq_mul_inv]
  cases s' with
  | negative => rw [factor, inv_neg, inv_one]
  | positive => rw [factor, inv_one]

theorem abs_factor (s : Sign) : |factor s| = 1 := by
  cases s with
  | negative => exact (abs_neg 1).trans abs_one
  | positive => exact abs_one

theorem abs_factor_mul (s : Sign) {r : ℚ} (hr : 0 ≤ r) : |factor s * r| = r := by
  rw [abs_mul, abs_factor, one_mul, abs_of_nonneg hr]

theorem apply_neg (s : Sign) (n : ℤ) : (-s).apply n = -s.apply n := by
  cases s with
  | negative => exact (Int.neg_neg n).symm
  | positive => rfl

theorem cast_apply (s : Sign) (n : ℤ) : ((s.apply n : ℤ) : ℚ) = factor s * n := by
  cases s with
  | negative =>
    rw [Sign.apply, factor, neg_one_mul]
    push_cast
    rfl
  | positive => exact (one_mul _).symm

/-- The number a finite double stands for; zero for the other doubles. -/
def value (x : Float) : ℚ :=
  match x.toModel.unpack with
  | .finite s m e _ => factor s * (m * 2 ^ e)
  | _ => 0

theorem value_of_finite (h : x.toModel.unpack = .finite s m e hm) : value x = factor s * (m * 2 ^ e) := by
  rw [value, h]

theorem value_of_zero (h : x.toModel.unpack = .zero s) : value x = 0 := by
  rw [value, h]

theorem abs_value_of_finite (h : x.toModel.unpack = .finite s m e hm) : |value x| = m * 2 ^ e := by
  rw [value_of_finite h, abs_factor_mul s (by positivity)]

/-! ### Opposites -/

theorem isFinite_neg_iff : (-x).isFinite = true ↔ x.isFinite = true := by
  show (-x).toModel.unpack.isFinite = true ↔ x.toModel.unpack.isFinite = true
  rw [unpack_neg]
  cases x.toModel.unpack <;> exact Iff.rfl

theorem value_neg (x : Float) : value (-x) = -value x := by
  rw [value, value, unpack_neg]
  cases x.toModel.unpack with
  | finite s m e hm =>
    show factor (-s) * (m * 2 ^ e) = -(factor s * (m * 2 ^ e))
    rw [factor_neg, neg_mul]
  | _ => exact neg_zero.symm

theorem sub_eq_add_neg_unpacked (u v : UnpackedFloat) :
    UnpackedFloat.sub .binary64 u v = UnpackedFloat.add .binary64 u v.neg := by
  cases u with
  | finite s m e hm =>
    cases v with
    | finite s' m' e' hm' =>
      simp only [UnpackedFloat.sub, UnpackedFloat.add, UnpackedFloat.neg]
      rw [Int.sub_eq_add_neg, ← apply_neg]
    | _ => rfl
  | _ => cases v <;> rfl

/-- A difference is the sum with the opposite. -/
protected theorem sub_eq_add_neg (x y : Float) : x - y = x + -y := by
  show Float.ofModel (.pack (UnpackedFloat.sub .binary64 x.toModel.unpack y.toModel.unpack)) =
    Float.ofModel (.pack (UnpackedFloat.add .binary64 x.toModel.unpack (-y).toModel.unpack))
  rw [unpack_neg, sub_eq_add_neg_unpacked]

/-! ### Rounded results -/

/-- The double `x` is the number `q` rounded. -/
def RoundsTo (x : Float) (q : ℚ) : Prop :=
  ∃ s r, 0 ≤ r ∧ q = factor s * r ∧ x.toModel = .pack (rounded s r)

theorem roundsTo_zero (h : x.toModel = .pack (.zero s)) : RoundsTo x 0 :=
  ⟨s, 0, le_rfl, (mul_zero _).symm, by rw [h, rounded_zero]⟩

theorem roundsTo_finite (hgrid : OnGrid m e) (h : x.toModel = .pack (.finite s m e hgrid.pos)) :
    RoundsTo x (factor s * (m * 2 ^ e)) :=
  ⟨s, m * 2 ^ e, by positivity, rfl, by rw [h, rounded_of_onGrid s hgrid]⟩

theorem roundsTo_round (hm : 0 < m) (h : x.toModel = .pack (UnpackedFloat.round .binary64 s m e)) :
    RoundsTo x (factor s * (m * 2 ^ e)) :=
  ⟨s, m * 2 ^ e, by positivity, rfl, by rw [h, round_eq_rounded s hm]⟩

theorem roundsTo_normalize {n : ℤ} (h : x.toModel = .pack (UnpackedFloat.normalize .binary64 n e .positive)) :
    RoundsTo x (n * 2 ^ e) := by
  rcases Int.lt_trichotomy n 0 with hlt | rfl | hgt
  · have hround : UnpackedFloat.normalize .binary64 n e .positive = .round .binary64 .negative (-n).toNat e := by
      rw [UnpackedFloat.normalize, Int.compare_eq_lt.2 hlt]
    have hcast : (((-n).toNat : ℕ) : ℚ) = -n := by
      have : (((-n).toNat : ℤ)) = -n := by omega
      exact_mod_cast this
    have := roundsTo_round (by omega) (hround ▸ h)
    rwa [factor, hcast, neg_mul, one_mul, neg_mul, neg_neg] at this
  · rw [Int.cast_zero, zero_mul]
    exact roundsTo_zero h
  · have hround : UnpackedFloat.normalize .binary64 n e .positive = .round .binary64 .positive n.toNat e := by
      rw [UnpackedFloat.normalize, Int.compare_eq_gt.2 hgt]
    have hcast : ((n.toNat : ℕ) : ℚ) = n := by
      have : ((n.toNat : ℤ)) = n := by omega
      exact_mod_cast this
    have := roundsTo_round (by omega) (hround ▸ h)
    rwa [factor, hcast, one_mul] at this

theorem magnitude_nonneg (u : UnpackedFloat) : 0 ≤ magnitude u := by
  cases u with
  | finite s m e hm => exact mul_nonneg (Nat.cast_nonneg m) (zpow_pos two_pos e).le
  | _ => exact le_rfl

theorem finite_cases (h : x.isFinite = true) : (∃ s, x.toModel.unpack = .zero s) ∨
    ∃ s m e, ∃ hgrid : OnGrid m e, x.toModel.unpack = .finite s m e hgrid.pos := by
  rcases isFinite_iff.1 h with hzero | ⟨s, m, e, hm, hx⟩
  · exact .inl hzero
  · exact .inr ⟨s, m, e, onGrid_of_unpack hx, hx⟩

theorem magnitude_rounded_abs_value (s : Sign) (h : x.isFinite = true) :
    magnitude (rounded s |value x|) = |value x| := by
  rcases finite_cases h with ⟨s', hx⟩ | ⟨s', m, e, hgrid, hx⟩
  · rw [value_of_zero hx, abs_zero, rounded_zero]
    rfl
  · rw [abs_value_of_finite hx, rounded_of_onGrid s hgrid]
    rfl

/-- The greatest double is half a step below the limit. -/
theorem abs_value_le (h : x.isFinite = true) : |value x| ≤ limit - 2 ^ (970 : ℤ) := by
  have hgreatest : limit - 2 ^ (970 : ℤ) = (2 ^ 53 - 1) * 2 ^ (971 : ℤ) := by
    rw [limit, show (971 : ℤ) = 970 + 1 by rfl, zpow_add_one₀ two_ne_zero]
    ring
  rw [hgreatest]
  rcases finite_cases h with ⟨s, hx⟩ | ⟨s, m, e, hgrid, hx⟩
  · rw [value_of_zero hx, abs_zero]
    exact mul_nonneg (by norm_num) (zpow_pos two_pos _).le
  · rw [abs_value_of_finite hx]
    have hmantissa : (m : ℚ) ≤ 2 ^ 53 - 1 := by
      have : ((m + 1 : ℕ) : ℚ) ≤ (2 ^ 53 : ℕ) := by exact_mod_cast hgrid.lt
      push_cast at this
      linarith
    exact mul_le_mul hmantissa (zpow_le_zpow_right₀ one_le_two hgrid.le) (zpow_pos two_pos e).le (by norm_num)

theorem abs_value_lt_limit (h : x.isFinite = true) : |value x| < limit :=
  (abs_value_le h).trans_lt (sub_lt_self _ (zpow_pos two_pos _))

namespace RoundsTo

variable {k : ℤ}

theorem isFinite_iff (h : RoundsTo x q) : x.isFinite = true ↔ |q| < limit := by
  obtain ⟨s, r, hr, rfl, hx⟩ := h
  rw [abs_factor_mul s hr]
  have hfinite : x.isFinite = (Float.Model.pack (rounded s r)).isFinite := by rw [← hx]; rfl
  rw [hfinite]
  refine ⟨fun h => ?_, fun h => isFinite_pack (within_rounded s hr h)⟩
  by_contra hle
  have hunpack : (Float.Model.pack (rounded s r)).unpack.isFinite = true := h
  rw [overflow_rounded s (not_lt.1 hle)] at hunpack
  exact absurd hunpack (by simp [UnpackedFloat.isFinite])

/-- A result from the limit on is a positive infinity. -/
theorem unpack_of_le (h : RoundsTo x q) (hle : limit ≤ q) : x.toModel.unpack = .infinity .positive := by
  have hpos : 0 < q := (zpow_pos two_pos _).trans_le (le_limit.trans hle)
  obtain ⟨s, r, hr, rfl, hx⟩ := h
  cases s with
  | negative =>
    rw [factor] at hpos
    linarith
  | positive =>
    rw [factor, one_mul] at hle
    rw [hx, overflow_rounded .positive hle]

theorem value_eq (h : RoundsTo x q) (hx : x.isFinite = true) :
    ∃ s, q = factor s * |q| ∧ value x = factor s * magnitude (rounded s |q|) := by
  have hlimit := h.isFinite_iff.1 hx
  obtain ⟨s, r, hr, rfl, hmodel⟩ := h
  rw [abs_factor_mul s hr] at hlimit ⊢
  have hunpack : x.toModel.unpack = rounded s r := by rw [hmodel, unpack_pack_rounded s hr hlimit]
  refine ⟨s, rfl, ?_⟩
  rcases onGrid_rounded s hr hlimit with hzero | ⟨m, e, hgrid, hfinite⟩
  · rw [value_of_zero (hunpack.trans hzero), hzero]
    exact (mul_zero _).symm
  · rw [value_of_finite (hunpack.trans hfinite), hfinite]
    rfl

theorem zpow_le (h : RoundsTo x q) (hx : x.isFinite = true) (hk : -1074 ≤ k) (hle : 2 ^ k ≤ |q|) :
    2 ^ k ≤ |value x| := by
  obtain ⟨s, -, hvalue⟩ := h.value_eq hx
  rw [hvalue, abs_factor_mul s (magnitude_nonneg _)]
  exact zpow_le_magnitude s hk hle

theorem nonneg (h : RoundsTo x q) (hx : x.isFinite = true) (hq : 0 ≤ q) : 0 ≤ value x := by
  obtain ⟨s, hsign, hvalue⟩ := h.value_eq hx
  rw [hvalue]
  cases s with
  | positive => exact mul_nonneg zero_le_one (magnitude_nonneg _)
  | negative =>
    have hzero : q = 0 := by
      rw [factor] at hsign
      have := abs_nonneg q
      linarith
    rw [hzero, abs_zero, rounded_zero]
    exact (mul_zero _).ge

/-- The value of a double is not changed by rounding. -/
theorem exact (h : RoundsTo x q) (hy : y.isFinite = true) (hq : |q| = |value y|) : x.isFinite = true ∧ value x = q := by
  have hx : x.isFinite = true := h.isFinite_iff.2 (hq ▸ abs_value_lt_limit hy)
  obtain ⟨s, hsign, hvalue⟩ := h.value_eq hx
  refine ⟨hx, ?_⟩
  rw [hvalue, hq, magnitude_rounded_abs_value s hy, ← hq, ← hsign]

end RoundsTo

/-! ### Operations -/

theorem cast_decreaseExponent {t : ℤ} (h : t ≤ e) : ((decreaseExponent m e t).1 : ℚ) * 2 ^ t = m * 2 ^ e := by
  have hshift : e = t + (e - t).toNat := by omega
  show ((m <<< (e - t).toNat : ℕ) : ℚ) * 2 ^ t = _
  generalize (e - t).toNat = k at hshift
  rw [hshift, zpow_add₀ two_ne_zero, zpow_natCast, Nat.shiftLeft_eq]
  push_cast
  ring

theorem roundsTo_mul (hx : x.isFinite = true) (hy : y.isFinite = true) : RoundsTo (x * y) (value x * value y) := by
  have hmodel : (x * y).toModel = .pack (UnpackedFloat.mul .binary64 x.toModel.unpack y.toModel.unpack) := rfl
  rcases finite_cases hx with ⟨s, hx⟩ | ⟨s, m, e, hgrid, hx⟩
  · rw [value_of_zero hx, zero_mul]
    rcases finite_cases hy with ⟨s', hy⟩ | ⟨s', m', e', hgrid', hy⟩
    all_goals rw [hx, hy] at hmodel; exact roundsTo_zero hmodel
  rcases finite_cases hy with ⟨s', hy⟩ | ⟨s', m', e', hgrid', hy⟩
  · rw [value_of_zero hy, mul_zero]
    rw [hx, hy] at hmodel
    exact roundsTo_zero hmodel
  · rw [hx, hy, mul_finite s s' hgrid hgrid'] at hmodel
    refine ⟨s * s', _, by positivity, ?_, hmodel⟩
    rw [value_of_finite hx, value_of_finite hy, factor_mul]
    ring

theorem roundsTo_add (hx : x.isFinite = true) (hy : y.isFinite = true) : RoundsTo (x + y) (value x + value y) := by
  have hmodel : (x + y).toModel = .pack (UnpackedFloat.add .binary64 x.toModel.unpack y.toModel.unpack) := rfl
  rcases finite_cases hx with ⟨s, hx⟩ | ⟨s, m, e, hgrid, hx⟩
  · rw [value_of_zero hx, zero_add]
    rcases finite_cases hy with ⟨s', hy⟩ | ⟨s', m', e', hgrid', hy⟩
    · rw [value_of_zero hy]
      rw [hx, hy] at hmodel
      cases s <;> cases s' <;> exact roundsTo_zero hmodel
    · rw [value_of_finite hy]
      rw [hx, hy] at hmodel
      exact roundsTo_finite hgrid' hmodel
  rcases finite_cases hy with ⟨s', hy⟩ | ⟨s', m', e', hgrid', hy⟩
  · rw [value_of_zero hy, add_zero, value_of_finite hx]
    rw [hx, hy] at hmodel
    exact roundsTo_finite hgrid hmodel
  · rw [hx, hy] at hmodel
    have hvalue : value x + value y = (s.apply (decreaseExponent m e (min e e')).1 +
        s'.apply (decreaseExponent m' e' (min e e')).1 : ℤ) * 2 ^ min e e' := by
      rw [value_of_finite hx, value_of_finite hy, ← cast_decreaseExponent (min_le_left e e'),
        ← cast_decreaseExponent (min_le_right e e')]
      push_cast
      rw [cast_apply, cast_apply]
      push_cast
      ring
    rw [hvalue]
    exact roundsTo_normalize hmodel

theorem roundsTo_sub (hx : x.isFinite = true) (hy : y.isFinite = true) : RoundsTo (x - y) (value x - value y) := by
  have hsum := roundsTo_add hx (isFinite_neg_iff.2 hy)
  rwa [value_neg, ← sub_eq_add_neg, ← Double.sub_eq_add_neg] at hsum

theorem roundsTo_div (hx : x.isFinite = true) (hy : y.isFinite = true) (hne : value y ≠ 0) :
    RoundsTo (x / y) (value x / value y) := by
  have hmodel : (x / y).toModel = .pack (UnpackedFloat.div .binary64 x.toModel.unpack y.toModel.unpack) := rfl
  rcases finite_cases hy with ⟨s', hy⟩ | ⟨s', m', e', hgrid', hy⟩
  · exact absurd (value_of_zero hy) hne
  rcases finite_cases hx with ⟨s, hx⟩ | ⟨s, m, e, hgrid, hx⟩
  · rw [value_of_zero hx, zero_div]
    rw [hx, hy] at hmodel
    exact roundsTo_zero hmodel
  · rw [hx, hy, div_finite s s' hgrid.pos hgrid'.pos] at hmodel
    refine ⟨s / s', _, by positivity, ?_, hmodel⟩
    rw [value_of_finite hx, value_of_finite hy, factor_div, mul_div_mul_comm]

/-! ### Finite results -/

theorem isFinite_of_pack {u : UnpackedFloat} (h : (Float.Model.pack u).isFinite = true) : u.isFinite = true := by
  cases u with
  | notANumber => exact absurd h (by decide)
  | infinity s => cases s <;> exact absurd h (by decide)
  | zero s => rfl
  | finite s m e hm => rfl

theorem isFinite_of_add {u v : UnpackedFloat} (h : (UnpackedFloat.add .binary64 u v).isFinite = true) :
    u.isFinite = true ∧ v.isFinite = true := by
  cases u with
  | notANumber => cases v <;> exact absurd h Bool.false_ne_true
  | infinity s =>
    cases v with
    | infinity s' => cases s <;> cases s' <;> exact absurd h Bool.false_ne_true
    | _ => exact absurd h Bool.false_ne_true
  | _ =>
    cases v with
    | notANumber | infinity => exact absurd h Bool.false_ne_true
    | _ => exact ⟨rfl, rfl⟩

theorem isFinite_add_iff :
    (x + y).isFinite = true ↔ x.isFinite = true ∧ y.isFinite = true ∧ |value x + value y| < limit := by
  constructor
  · intro h
    obtain ⟨hx, hy⟩ : x.isFinite = true ∧ y.isFinite = true := isFinite_of_add (isFinite_of_pack h)
    exact ⟨hx, hy, (roundsTo_add hx hy).isFinite_iff.1 h⟩
  · rintro ⟨hx, hy, hlimit⟩
    exact (roundsTo_add hx hy).isFinite_iff.2 hlimit

theorem isFinite_sub_iff :
    (x - y).isFinite = true ↔ x.isFinite = true ∧ y.isFinite = true ∧ |value x - value y| < limit := by
  rw [Double.sub_eq_add_neg, isFinite_add_iff, isFinite_neg_iff, value_neg, ← sub_eq_add_neg]

variable {x' y' : Float}

theorem isFinite_mul_add_mul_iff (hx : x.isFinite = true) (hy : y.isFinite = true) (hx' : x'.isFinite = true)
    (hy' : y'.isFinite = true) : (x * y + x' * y').isFinite = true ↔
      |value x * value y| < limit ∧ |value x' * value y'| < limit ∧ |value (x * y) + value (x' * y')| < limit := by
  rw [isFinite_add_iff, (roundsTo_mul hx hy).isFinite_iff, (roundsTo_mul hx' hy').isFinite_iff]

theorem isFinite_mul_sub_mul_iff (hx : x.isFinite = true) (hy : y.isFinite = true) (hx' : x'.isFinite = true)
    (hy' : y'.isFinite = true) : (x * y - x' * y').isFinite = true ↔
      |value x * value y| < limit ∧ |value x' * value y'| < limit ∧ |value (x * y) - value (x' * y')| < limit := by
  rw [isFinite_sub_iff, (roundsTo_mul hx hy).isFinite_iff, (roundsTo_mul hx' hy').isFinite_iff]

/-! ### Quotients -/

theorem isFinite_of_div {u v : UnpackedFloat} (h : (UnpackedFloat.div .binary64 u v).isFinite = true) :
    u.isFinite = true := by
  cases u with
  | notANumber => cases v <;> exact absurd h Bool.false_ne_true
  | infinity s => cases v <;> exact absurd h Bool.false_ne_true
  | zero s => rfl
  | finite s m e hm => rfl

theorem isFinite_div_iff_of_isInf (hy : y.isInf = true) : (x / y).isFinite = true ↔ x.isFinite = true := by
  refine ⟨fun h => isFinite_of_div (isFinite_of_pack h), fun hx => ?_⟩
  obtain ⟨s', hy⟩ := isInf_iff.1 hy
  refine isFinite_pack (u := UnpackedFloat.div .binary64 x.toModel.unpack y.toModel.unpack) ?_
  rcases finite_cases hx with ⟨s, hx⟩ | ⟨s, m, e, hgrid, hx⟩
  · rw [hx, hy]
    trivial
  · rw [hx, hy]
    trivial

theorem isFinite_div_iff (hy : y.isFinite = true) (hne : value y ≠ 0) :
    (x / y).isFinite = true ↔ x.isFinite = true ∧ |value x / value y| < limit := by
  constructor
  · intro h
    have hx : x.isFinite = true := isFinite_of_div (isFinite_of_pack h)
    exact ⟨hx, (roundsTo_div hx hy hne).isFinite_iff.1 h⟩
  · rintro ⟨hx, hlimit⟩
    exact (roundsTo_div hx hy hne).isFinite_iff.2 hlimit

/-- No finite double but a zero is nearer to zero than the least positive double. -/
theorem zpow_le_abs_value (h : x.isFinite = true) (hne : (x == 0) = false) : 2 ^ (-1074 : ℤ) ≤ |value x| := by
  rcases finite_cases h with ⟨s, hx⟩ | ⟨s, m, e, hgrid, hx⟩
  · have hzero : (x == 0) = true := by
      show (x.toModel.unpack.beq (.zero .positive)) = true
      rw [hx]
      rfl
    exact absurd (hne.symm.trans hzero) Bool.false_ne_true
  · rw [abs_value_of_finite hx]
    have hone : (1 : ℚ) ≤ m := by exact_mod_cast hgrid.pos
    calc (2 : ℚ) ^ (-1074 : ℤ) ≤ 2 ^ e := zpow_le_zpow_right₀ one_le_two hgrid.ge
      _ ≤ m * 2 ^ e := le_mul_of_one_le_left (zpow_pos two_pos e).le hone

theorem square_cases (h : x.isFinite = true) :
    (x * x).isFinite = true ∧ 0 ≤ value (x * x) ∨ (x * x).toModel.unpack = .infinity .positive := by
  have hsquare := roundsTo_mul h h
  have hnonneg := mul_self_nonneg (value x)
  rcases lt_or_ge (value x * value x) limit with hlt | hge
  · have hfinite := hsquare.isFinite_iff.2 (by rwa [abs_of_nonneg hnonneg])
    exact .inl ⟨hfinite, hsquare.nonneg hfinite hnonneg⟩
  · exact .inr (hsquare.unpack_of_le hge)

theorem unpack_add_of_infinity (hx : x.isFinite = true ∨ x.toModel.unpack = .infinity .positive)
    (hy : y.isFinite = true ∨ y.toModel.unpack = .infinity .positive)
    (h : x.toModel.unpack = .infinity .positive ∨ y.toModel.unpack = .infinity .positive) :
    (x + y).toModel.unpack = .infinity .positive := by
  have hsum : UnpackedFloat.add .binary64 x.toModel.unpack y.toModel.unpack = .infinity .positive := by
    rcases h with h | h
    · rw [h]
      rcases hy with hy | hy
      · rcases finite_cases hy with ⟨s, hy⟩ | ⟨s, m, e, hgrid, hy⟩ <;> (rw [hy]; rfl)
      · rw [hy]
        rfl
    · rw [h]
      rcases hx with hx | hx
      · rcases finite_cases hx with ⟨s, hx⟩ | ⟨s, m, e, hgrid, hx⟩ <;> (rw [hx]; rfl)
      · rw [hx]
        rfl
  show (Float.Model.pack (UnpackedFloat.add .binary64 x.toModel.unpack y.toModel.unpack)).unpack = _
  rw [hsum]
  rfl

/-- The sum of two squares is no NaN. -/
theorem sum_of_squares_cases (hx : x.isFinite = true) (hy : y.isFinite = true) :
    (x * x + y * y).isFinite = true ∧ (x * x).isFinite = true ∧ (y * y).isFinite = true ∨
      (x * x + y * y).toModel.unpack = .infinity .positive := by
  rcases square_cases hx with ⟨hx, hxpos⟩ | hx
  · rcases square_cases hy with ⟨hy, hypos⟩ | hy
    · have hsum := roundsTo_add hx hy
      rcases lt_or_ge (value (x * x) + value (y * y)) limit with hlt | hge
      · exact .inl ⟨hsum.isFinite_iff.2 (by rwa [abs_of_nonneg (add_nonneg hxpos hypos)]), hx, hy⟩
      · exact .inr (hsum.unpack_of_le hge)
    · exact .inr (unpack_add_of_infinity (.inl hx) (.inr hy) (.inr hy))
  · exact .inr (unpack_add_of_infinity (.inr hx) ((square_cases hy).imp_left And.left) (.inl hx))

theorem zpow_le_square {k : ℤ} (hx : x.isFinite = true) (hsquare : (x * x).isFinite = true) (hk : -1074 ≤ 2 * k)
    (h : 2 ^ k ≤ |value x|) : 2 ^ (2 * k) ≤ value (x * x) := by
  have hrounds := roundsTo_mul hx hx
  have hexact : 2 ^ (2 * k) ≤ |value x * value x| := by
    rw [abs_mul, two_mul, zpow_add₀ two_ne_zero]
    exact mul_le_mul h h (zpow_pos two_pos k).le (abs_nonneg _)
  calc (2 : ℚ) ^ (2 * k) ≤ |value (x * x)| := hrounds.zpow_le hsquare hk hexact
    _ = value (x * x) := abs_of_nonneg (hrounds.nonneg hsquare (mul_self_nonneg _))

/-- What is at least the square of a number, as far as the exponents reach, divides it without an overflow. -/
theorem div_lt_limit {c d : ℚ} (hc : 0 ≤ c) (hleast : 2 ^ (-1074 : ℤ) ≤ d)
    (hsquare : ∀ k : ℤ, -1074 ≤ 2 * k → 2 ^ k ≤ c → 2 ^ (2 * k) ≤ d) : c / d < limit := by
  have hd : 0 < d := (zpow_pos two_pos _).trans_le hleast
  rcases hc.eq_or_lt with rfl | hpos
  · rw [zero_div]
    exact (zpow_pos two_pos _).trans_le le_limit
  have hlow : (2 : ℚ) ^ Int.log 2 c ≤ c := Int.zpow_log_le_self one_lt_two hpos
  have hhigh : c < (2 : ℚ) ^ (Int.log 2 c + 1) := Int.lt_zpow_succ_log_self one_lt_two c
  generalize Int.log 2 c = k at hlow hhigh
  -- below 2 ^ (-537) a square is rounded to nothing, but the number itself is small then
  obtain ⟨j, hj, hjd⟩ : ∃ j : ℤ, k + 1 ≤ 1023 + j ∧ 2 ^ j ≤ d := by
    by_cases hk : -1074 ≤ 2 * k
    · exact ⟨2 * k, by omega, hsquare k hk hlow⟩
    · exact ⟨-1074, by omega, hleast⟩
  rw [div_lt_iff₀ hd]
  calc c < 2 ^ (k + 1) := hhigh
    _ ≤ 2 ^ (1023 + j) := zpow_le_zpow_right₀ one_le_two hj
    _ = 2 ^ (1023 : ℤ) * 2 ^ j := zpow_add₀ two_ne_zero ..
    _ ≤ limit * d := mul_le_mul le_limit hjd (zpow_pos two_pos j).le (le_limit.trans' (zpow_pos two_pos _).le)

/-- A part of a number over the square of its length does not overflow. -/
theorem isFinite_div_sum_of_squares {n : Float} (hn : n.isFinite = true) (hx : x.isFinite = true)
    (hy : y.isFinite = true) (heq : |value n| = |value x| ∨ |value n| = |value y|)
    (hne : (x * x + y * y == 0) = false) : (n / (x * x + y * y)).isFinite = true := by
  rcases sum_of_squares_cases hx hy with ⟨hsum, hxx, hyy⟩ | hinf
  · have hleast := zpow_le_abs_value hsum hne
    have hvalue : value (x * x + y * y) ≠ 0 := abs_pos.1 ((zpow_pos two_pos _).trans_le hleast)
    refine (roundsTo_div hn hsum hvalue).isFinite_iff.2 ?_
    rw [abs_div]
    refine div_lt_limit (abs_nonneg _) hleast fun k hk hk' => ?_
    have hsquares := roundsTo_add hxx hyy
    have hxpos := (roundsTo_mul hx hx).nonneg hxx (mul_self_nonneg _)
    have hypos := (roundsTo_mul hy hy).nonneg hyy (mul_self_nonneg _)
    refine hsquares.zpow_le hsum hk ?_
    rw [abs_of_nonneg (add_nonneg hxpos hypos)]
    rcases heq with heq | heq
    · exact (zpow_le_square hx hxx hk (heq ▸ hk')).trans (le_add_of_nonneg_right hypos)
    · exact (zpow_le_square hy hyy hk (heq ▸ hk')).trans (le_add_of_nonneg_left hxpos)
  · exact (isFinite_div_iff_of_isInf (isInf_iff.2 ⟨_, hinf⟩)).2 hn

/-! ### Units -/

theorem value_zero : value 0 = 0 :=
  rfl

theorem value_one : value 1 = 1 := by
  have hunpack : (1 : Float).toModel.unpack = .finite .positive (2 ^ 52) (-52) (by decide) := by rfl
  rw [value_of_finite hunpack, factor]
  norm_num

theorem one_mul_value (hx : x.isFinite = true) : (1 * x).isFinite = true ∧ value (1 * x) = value x := by
  have hproduct := roundsTo_mul (x := 1) (by decide) hx
  rw [value_one, one_mul] at hproduct
  exact hproduct.exact hx rfl

theorem zero_mul_value (hx : x.isFinite = true) : (0 * x).isFinite = true ∧ value (0 * x) = 0 := by
  have hproduct := roundsTo_mul (x := 0) (by decide) hx
  rw [value_zero, zero_mul] at hproduct
  exact hproduct.exact (y := 0) (by decide) rfl

theorem one_mul_add_zero_mul (hx : x.isFinite = true) (hy : y.isFinite = true) :
    (1 * x + 0 * y).isFinite = true ∧ value (1 * x + 0 * y) = value x := by
  obtain ⟨hone, hone'⟩ := one_mul_value hx
  obtain ⟨hzero, hzero'⟩ := zero_mul_value hy
  have hsum := roundsTo_add hone hzero
  rw [hone', hzero', add_zero] at hsum
  exact hsum.exact hx rfl

theorem zero_mul_sub_one_mul (hx : x.isFinite = true) (hy : y.isFinite = true) :
    (0 * x - 1 * y).isFinite = true ∧ value (0 * x - 1 * y) = -value y := by
  obtain ⟨hzero, hzero'⟩ := zero_mul_value hx
  obtain ⟨hone, hone'⟩ := one_mul_value hy
  have hdifference := roundsTo_sub hzero hone
  rw [hone', hzero', zero_sub] at hdifference
  exact hdifference.exact hy (abs_neg _)

theorem value_half : value 0.5 = 1 / 2 := by
  have hunpack : (0.5 : Float).toModel.unpack = .finite .positive (2 ^ 52) (-53) (by decide) := by rfl
  rw [value_of_finite hunpack, factor]
  norm_num

/-- Adding a half does not leave the finite doubles. -/
theorem isFinite_add_half (h : x.isFinite = true) : (x + 0.5).isFinite = true := by
  have hstep : (1 : ℚ) ≤ 2 ^ (970 : ℤ) := one_le_zpow₀ one_le_two (by decide)
  refine isFinite_add_iff.2 ⟨h, by decide, ?_⟩
  calc |value x + value 0.5| ≤ |value x| + |value 0.5| := abs_add_le ..
    _ ≤ limit - 2 ^ (970 : ℤ) + 1 / 2 := by
      rw [value_half, abs_of_pos (one_half_pos : (0 : ℚ) < 1 / 2)]
      exact add_le_add (abs_value_le h) le_rfl
    _ < limit := by
      rw [sub_add]
      exact sub_lt_self _ (sub_pos.2 (one_half_lt_one.trans_le hstep))

end Phasor.Double
