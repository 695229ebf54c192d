import Mathlib
import Phasor.Decimal.Shortest
import Phasor.Proofs.Doubles

/-!
# The double nearest to a rational number

`rounded s q` is the number `q` on the grid of the doubles, with the sign `s`, and `nearest q` the double it packs into.
Products and quotients of finite doubles are rounded exact results (`mul_finite`, `div_finite`), and so is a decimal
(`ofScientific_eq_nearest`): what a decimal reads as depends on its value only. A number on the grid is its own
rounding, rounding does not fall below a power of two, and a number overflows from `limit` on (`unpack_pack_rounded`).
-/

namespace Phasor

namespace Decimal

theorem roundHalfEven_mul_right (m d : ℕ) {k : ℕ} (hk : 0 < k) :
    roundHalfEven (m * k) (d * k) = roundHalfEven m d := by
  have hcompare : compare (2 * (m % d * k)) (d * k) = compare (2 * (m % d)) d := by
    rw [← Nat.mul_assoc]
    rcases Nat.lt_trichotomy (2 * (m % d)) d with hlt | heq | hgt
    · rw [Nat.compare_eq_lt.2 hlt, Nat.compare_eq_lt.2 (Nat.mul_lt_mul_of_pos_right hlt hk)]
    · rw [Nat.compare_eq_eq.2 heq, heq, Nat.compare_eq_eq.2 rfl]
    · rw [Nat.compare_eq_gt.2 hgt, Nat.compare_eq_gt.2 (Nat.mul_lt_mul_of_pos_right hgt hk)]
  rw [roundHalfEven, roundHalfEven, Nat.mul_div_mul_right _ _ hk, Nat.mul_mod_mul_right, hcompare]

/-- A half goes up where the lower neighbour is odd. -/
theorem lt_roundHalfEven {m d n : ℕ} (hd : 0 < d) (hn : n % 2 = 1) (h : (2 * n + 1) * d ≤ 2 * m) :
    n < roundHalfEven m d := by
  have hdivision := Nat.div_add_mod m d
  have hle : n ≤ m / d := by
    rw [Nat.le_div_iff_mul_le hd]
    rw [Nat.add_mul, Nat.mul_assoc] at h
    omega
  unfold roundHalfEven
  dsimp only
  rcases hle.lt_or_eq with hlt | rfl
  · split <;> omega
  · -- the rest is a half at least
    have hrest : d ≤ 2 * (m % d) := by
      rw [Nat.add_mul, Nat.mul_assoc, Nat.mul_comm (m / d)] at h
      omega
    split
    · rename_i hcompare
      rw [Nat.compare_eq_lt] at hcompare
      omega
    all_goals omega

/-- Up to a half is rounded to nothing, as zero is even. -/
theorem roundHalfEven_eq_zero_iff {m d : ℕ} (hd : 0 < d) : roundHalfEven m d = 0 ↔ 2 * m ≤ d := by
  rcases Nat.lt_or_ge m d with hlt | hge
  · rw [roundHalfEven, Nat.div_eq_of_lt hlt, Nat.mod_eq_of_lt hlt]
    split
    · rename_i hcompare
      rw [Nat.compare_eq_lt] at hcompare
      omega
    · rename_i hcompare
      rw [Nat.compare_eq_eq] at hcompare
      omega
    · rename_i hcompare
      rw [Nat.compare_eq_gt] at hcompare
      omega
  · have hone : 1 ≤ roundHalfEven m d := le_roundHalfEven hd (by omega)
    omega

end Decimal

namespace Double

open Float.Model Float.Model.UnpackedFloat
open Decimal (roundHalfEven roundHalfEven_le le_roundHalfEven lt_roundHalfEven roundHalfEven_mul_right
  roundHalfEven_eq_zero_iff)

/-! ### Whole numbers -/

/-- The whole number nearest to `q`, which is not negative; of two the even one. -/
def nearestWhole (q : ℚ) : ℕ := roundHalfEven q.num.natAbs q.den

theorem nearestWhole_div (m : ℕ) {d : ℕ} (hd : 0 < d) : nearestWhole (m / d) = roundHalfEven m d := by
  have hnonneg : 0 ≤ (m / d : ℚ) := by positivity
  have hden : (0 : ℚ) < d := by exact_mod_cast hd
  -- both fractions are brought to the product of their denominators
  have hcross : ((m / d : ℚ).num.natAbs : ℚ) * d = m * (m / d : ℚ).den := by
    rw [Nat.cast_natAbs, abs_of_nonneg (Rat.num_nonneg.2 hnonneg), ← Rat.mul_den_eq_num, mul_right_comm,
      div_mul_cancel₀ _ hden.ne']
  have hcross' : (m / d : ℚ).num.natAbs * d = m * (m / d : ℚ).den := by exact_mod_cast hcross
  rw [nearestWhole, ← roundHalfEven_mul_right _ _ hd, hcross', Nat.mul_comm (m / d : ℚ).den d,
    roundHalfEven_mul_right _ _ (Rat.den_pos _)]

theorem eq_natAbs_div_den {q : ℚ} (hq : 0 ≤ q) : q = q.num.natAbs / q.den := by
  rw [Nat.cast_natAbs, abs_of_nonneg (Rat.num_nonneg.2 hq)]
  exact (Rat.num_div_den q).symm

variable {q : ℚ} {n : ℕ}

theorem nearestWhole_le (hq : 0 ≤ q) (h : 2 * q < 2 * n + 1) : nearestWhole q ≤ n := by
  have hden : (0 : ℚ) < q.den := by exact_mod_cast q.den_pos
  refine roundHalfEven_le ?_
  rw [eq_natAbs_div_den hq, ← mul_div_assoc, div_lt_iff₀ hden] at h
  exact_mod_cast h

theorem le_nearestWhole (h : n ≤ q) : n ≤ nearestWhole q := by
  have hden : (0 : ℚ) < q.den := by exact_mod_cast q.den_pos
  refine le_roundHalfEven q.den_pos ?_
  rw [eq_natAbs_div_den ((Nat.cast_nonneg n).trans h), le_div_iff₀ hden] at h
  exact_mod_cast h

/-- A half goes up where the lower neighbour is odd. -/
theorem lt_nearestWhole (hn : n % 2 = 1) (h : 2 * n + 1 ≤ 2 * q) : n < nearestWhole q := by
  have hden : (0 : ℚ) < q.den := by exact_mod_cast q.den_pos
  have hq : 0 ≤ q := by
    have : (0 : ℚ) ≤ n := Nat.cast_nonneg n
    linarith
  refine lt_roundHalfEven q.den_pos hn ?_
  rw [eq_natAbs_div_den hq, ← mul_div_assoc, le_div_iff₀ hden] at h
  exact_mod_cast h

theorem nearestWhole_natCast (n : ℕ) : nearestWhole n = n := by
  refine Nat.le_antisymm (nearestWhole_le (Nat.cast_nonneg n) (by linarith)) (le_nearestWhole le_rfl)

theorem nearestWhole_eq_zero_iff (hq : 0 ≤ q) : nearestWhole q = 0 ↔ 2 * q ≤ 1 := by
  have hden : (0 : ℚ) < q.den := by exact_mod_cast q.den_pos
  have hscaled : 2 * q ≤ 1 ↔ 2 * q.num.natAbs ≤ q.den := by
    conv_lhs => rw [eq_natAbs_div_den hq, ← mul_div_assoc, div_le_one hden]
    exact_mod_cast Iff.rfl
  rw [nearestWhole, roundHalfEven_eq_zero_iff q.den_pos, hscaled]

/-! ### The grid around a number -/

/-- The exponent of the grid around the positive number `q`. -/
def grid (q : ℚ) : ℤ := max (Int.log 2 q - 52) (-1074)

theorem ge_grid (q : ℚ) : -1074 ≤ grid q := le_max_right _ _

theorem log_eq {k : ℤ} (h : 2 ^ k ≤ q) (h' : q < 2 ^ (k + 1)) : Int.log 2 q = k := by
  have hpos : 0 < q := (zpow_pos two_pos k).trans_le h
  have hlow : k ≤ Int.log 2 q := (Int.zpow_le_iff_le_log one_lt_two hpos).1 h
  have hhigh : Int.log 2 q < k + 1 := (Int.lt_zpow_iff_log_lt one_lt_two hpos).1 h'
  omega

theorem log_mul_zpow (hq : 0 < q) (k : ℤ) : Int.log 2 (q * 2 ^ k) = Int.log 2 q + k := by
  have hlow : (2 : ℚ) ^ Int.log 2 q ≤ q := Int.zpow_log_le_self one_lt_two hq
  have hhigh : q < (2 : ℚ) ^ (Int.log 2 q + 1) := Int.lt_zpow_succ_log_self one_lt_two q
  refine log_eq ?_ ?_
  · rw [zpow_add₀ two_ne_zero]
    gcongr
  · rw [add_right_comm, zpow_add₀ two_ne_zero]
    gcongr

theorem log_natCast (m : ℕ) : Int.log 2 (m : ℚ) = m.log2 := by
  rw [Int.log_natCast, Nat.log2_eq_log_two]

/-- A quotient and its floor lie around the same grid, once the floor is not cut to it already. -/
theorem gridExponent_eq_grid {m d : ℕ} {e : ℤ} (hm : 0 < m) (hd : 0 < d) (he : e ≤ grid (m / d * 2 ^ e)) :
    gridExponent (m / d) e = grid (m / d * 2 ^ e) := by
  have hpos : (0 : ℚ) < m / d := by positivity
  rw [grid, log_mul_zpow hpos] at he ⊢
  rw [gridExponent]
  by_cases hle : d ≤ m
  · have hone : (1 : ℚ) ≤ m / d := by
      rw [one_le_div (by exact_mod_cast hd)]
      exact_mod_cast hle
    rw [Int.log_of_one_le_right 2 hone, Nat.floor_div_eq_div, ← Nat.log2_eq_log_two]
  · have hlog : Int.log 2 (m / d : ℚ) < 0 := by
      rw [← Int.lt_zpow_iff_log_lt one_lt_two hpos, zpow_zero, div_lt_one (by exact_mod_cast hd)]
      exact_mod_cast Nat.lt_of_not_le hle
    have hzero : (m / d).log2 = 0 := by
      rw [Nat.div_eq_of_lt (Nat.lt_of_not_le hle)]
      decide
    omega

theorem grid_eq_gridExponent {m : ℕ} (hm : 0 < m) (e : ℤ) : grid (m * 2 ^ e) = gridExponent m e := by
  rw [grid, log_mul_zpow (by exact_mod_cast hm), log_natCast, gridExponent]

/-! ### Rounding -/

/-- The number `q`, which is not negative, on the grid around it. -/
def rounded (s : Sign) (q : ℚ) : UnpackedFloat := ofRounded s (nearestWhole (q / 2 ^ grid q)) (grid q)

variable {m d : ℕ} {e : ℤ}

theorem roundWithAccuracy_eq_rounded (s : Sign) (hm : 0 < m) (hd : 0 < d) (he : e ≤ grid (m / d * 2 ^ e)) :
    roundWithAccuracy .binary64 s (m / d) e (accuracyOfFraction (m % d) d) = rounded s (m / d * 2 ^ e) := by
  have hgrid := gridExponent_eq_grid hm hd he
  have hshift : (grid (m / d * 2 ^ e) : ℤ) = e + (grid (m / d * 2 ^ e) - e).toNat := by omega
  have hquotient : (m / d * 2 ^ e / 2 ^ grid (m / d * 2 ^ e) : ℚ) =
      m / (d * 2 ^ (grid (m / d * 2 ^ e) - e).toNat : ℕ) := by
    generalize grid (m / d * 2 ^ e) = g at hshift
    generalize (g - e).toNat = k at hshift
    rw [hshift, zpow_add₀ two_ne_zero, zpow_natCast]
    push_cast
    field_simp
  rw [roundWithAccuracy_cut s m hd (by rwa [hgrid]), rounded, hgrid, hquotient,
    nearestWhole_div m (Nat.mul_pos hd (Nat.two_pow_pos _))]

theorem roundWithAccuracy_exact (s : Sign) (hm : 0 < m) (he : e ≤ grid (m * 2 ^ e)) :
    roundWithAccuracy .binary64 s m e .exact = rounded s (m * 2 ^ e) := by
  have h := roundWithAccuracy_eq_rounded s hm Nat.one_pos (e := e)
  rw [Nat.div_one, Nat.mod_one, Nat.cast_one, div_one] at h
  exact h he

theorem round_eq_rounded (s : Sign) (hm : 0 < m) (e : ℤ) :
    UnpackedFloat.round .binary64 s m e = rounded s (m * 2 ^ e) := by
  have hsame : ((m * 2 ^ (e - gridExponent m e).toNat : ℕ) : ℚ) * 2 ^ (e - (e - gridExponent m e).toNat) =
      m * 2 ^ e := by
    generalize (e - gridExponent m e).toNat = k
    rw [zpow_sub₀ two_ne_zero, zpow_natCast]
    push_cast
    field_simp
  unfold UnpackedFloat.round decreaseExponent
  simp only [targetExponent_eq, Nat.shiftLeft_eq]
  rw [roundWithAccuracy_exact s (Nat.mul_pos hm (Nat.two_pow_pos _)), hsame]
  rw [hsame, grid_eq_gridExponent hm]
  omega

theorem rounded_zero (s : Sign) : rounded s 0 = .zero s := by
  have hwhole : nearestWhole (0 / 2 ^ grid 0) = 0 := by
    rw [zero_div]
    exact nearestWhole_natCast 0
  rw [rounded, hwhole]
  rfl

/-! ### Operations on finite doubles -/

variable {m₁ m₂ : ℕ} {e₁ e₂ : ℤ}

theorem mul_eq_rounded (s₁ s₂ : Sign) (hm₁ : 0 < m₁) (hm₂ : 0 < m₂)
    (he : e₁ + e₂ ≤ gridExponent (m₁ * m₂) (e₁ + e₂)) :
    UnpackedFloat.mul .binary64 (.finite s₁ m₁ e₁ hm₁) (.finite s₂ m₂ e₂ hm₂) =
      rounded (s₁ * s₂) (m₁ * 2 ^ e₁ * (m₂ * 2 ^ e₂)) := by
  have hproduct : (m₁ * 2 ^ e₁ * (m₂ * 2 ^ e₂) : ℚ) = (m₁ * m₂ : ℕ) * 2 ^ (e₁ + e₂) := by
    rw [zpow_add₀ two_ne_zero]
    push_cast
    ring
  rw [hproduct]
  refine roundWithAccuracy_exact _ (Nat.mul_pos hm₁ hm₂) ?_
  rwa [grid_eq_gridExponent (Nat.mul_pos hm₁ hm₂)]

theorem log2_mul_ge_left (hm₁ : 0 < m₁) (hm₂ : 0 < m₂) : m₁.log2 ≤ (m₁ * m₂).log2 :=
  (Nat.le_log2 (Nat.mul_pos hm₁ hm₂).ne').2 ((Nat.log2_self_le hm₁.ne').trans (Nat.le_mul_of_pos_right _ hm₂))

theorem log2_mul_ge_right (hm₁ : 0 < m₁) (hm₂ : 0 < m₂) : m₂.log2 ≤ (m₁ * m₂).log2 :=
  (Nat.mul_comm m₁ m₂) ▸ log2_mul_ge_left hm₂ hm₁

theorem mul_finite (s₁ s₂ : Sign) (h₁ : OnGrid m₁ e₁) (h₂ : OnGrid m₂ e₂) :
    UnpackedFloat.mul .binary64 (.finite s₁ m₁ e₁ h₁.pos) (.finite s₂ m₂ e₂ h₂.pos) =
      rounded (s₁ * s₂) (m₁ * 2 ^ e₁ * (m₂ * 2 ^ e₂)) := by
  have hgrid₁ := h₁.grid
  have hgrid₂ := h₂.grid
  have hlog₁ := log2_mul_ge_left h₁.pos h₂.pos
  have hlog₂ := log2_mul_ge_right h₁.pos h₂.pos
  refine mul_eq_rounded s₁ s₂ h₁.pos h₂.pos ?_
  rw [gridExponent] at hgrid₁ hgrid₂ ⊢
  omega

/-- The quotient is written with an exponent at which its floor has 53 bits, or at the least one. -/
theorem divCore_exponent_le (e₁ e₂ : ℤ) (hm₁ : 0 < m₁) (hm₂ : 0 < m₂) :
    min (e₁ - e₂) (Format.binary64.targetExponent (totalExponent m₁ e₁ - totalExponent m₂ e₂)) ≤
      grid (m₁ * 2 ^ e₁ / (m₂ * 2 ^ e₂)) := by
  have hbits : Format.binary64.mantissaBits = 53 := rfl
  have hmin : Format.binary64.minExponent = -1074 := rfl
  have hpos₁ : (0 : ℚ) < m₁ := by exact_mod_cast hm₁
  have hpos₂ : (0 : ℚ) < m₂ := by exact_mod_cast hm₂
  have hlow : (2 : ℚ) ^ (m₁.log2 : ℤ) ≤ m₁ := by
    rw [zpow_natCast]
    exact_mod_cast Nat.log2_self_le hm₁.ne'
  have hhigh : (m₂ : ℚ) ≤ 2 ^ (m₂.log2 + 1 : ℤ) := by
    exact_mod_cast Nat.le_of_lt (Nat.lt_log2_self (n := m₂))
  have hlog : (m₁.log2 + e₁ - (m₂.log2 + 1 + e₂) : ℤ) ≤ Int.log 2 (m₁ * 2 ^ e₁ / (m₂ * 2 ^ e₂) : ℚ) := by
    rw [← Int.zpow_le_iff_le_log one_lt_two (by positivity), Nat.cast_ofNat, zpow_sub₀ two_ne_zero,
      zpow_add₀ two_ne_zero, zpow_add₀ two_ne_zero]
    gcongr
  rw [grid, Format.targetExponent, totalExponent, totalExponent, hbits, hmin]
  omega

theorem div_finite (s₁ s₂ : Sign) (hm₁ : 0 < m₁) (hm₂ : 0 < m₂) :
    UnpackedFloat.div .binary64 (.finite s₁ m₁ e₁ hm₁) (.finite s₂ m₂ e₂ hm₂) =
      rounded (s₁ / s₂) (m₁ * 2 ^ e₁ / (m₂ * 2 ^ e₂)) := by
  have hexponent := divCore_exponent_le e₁ e₂ hm₁ hm₂
  show roundWithAccuracy .binary64 (s₁ / s₂) (divCore .binary64 m₁ e₁ m₂ e₂).1 (divCore .binary64 m₁ e₁ m₂ e₂).2.1
    (divCore .binary64 m₁ e₁ m₂ e₂).2.2 = _
  unfold divCore
  dsimp only
  generalize hmin : min (e₁ - e₂) (Format.binary64.targetExponent (totalExponent m₁ e₁ - totalExponent m₂ e₂)) = t
    at hexponent
  have hshift : e₁ - e₂ = t + (e₁ - e₂ - t).toNat := by omega
  have hsame : ((m₁ <<< (e₁ - e₂ - t).toNat : ℕ) : ℚ) / m₂ * 2 ^ t = m₁ * 2 ^ e₁ / (m₂ * 2 ^ e₂) := by
    generalize (e₁ - e₂ - t).toNat = k at hshift
    rw [show e₁ = e₂ + (t + k) by omega, zpow_add₀ two_ne_zero, zpow_add₀ two_ne_zero, zpow_natCast, Nat.shiftLeft_eq]
    push_cast
    field_simp
  rw [← hsame] at hexponent ⊢
  exact roundWithAccuracy_eq_rounded _ (by rw [Nat.shiftLeft_eq]; positivity) hm₂ hexponent

/-! ### What rounding keeps -/

theorem rounded_of_onGrid (s : Sign) (h : OnGrid m e) : rounded s (m * 2 ^ e) = .finite s m e h.pos := by
  have hcancel : (m * 2 ^ e / 2 ^ e : ℚ) = m := mul_div_cancel_right₀ _ (zpow_ne_zero e two_ne_zero)
  rw [rounded, grid_eq_gridExponent h.pos, h.grid, hcancel, nearestWhole_natCast, ofRounded_of_onGrid s h]

theorem scaled_lt (q : ℚ) : q / 2 ^ grid q < 2 ^ 53 := by
  have hlog := Int.lt_zpow_succ_log_self one_lt_two q (b := 2)
  rw [div_lt_iff₀ (zpow_pos two_pos _), ← zpow_natCast, ← zpow_add₀ two_ne_zero]
  refine hlog.trans_le (zpow_le_zpow_right₀ one_le_two ?_)
  rw [grid]
  omega

theorem nearestWhole_scaled_le (hq : 0 ≤ q) : nearestWhole (q / 2 ^ grid q) ≤ 2 ^ 53 := by
  rcases hq.eq_or_lt with rfl | hq
  · rw [zero_div]
    exact (nearestWhole_natCast 0).le.trans (by decide)
  · refine nearestWhole_le (by positivity) ?_
    have := scaled_lt q
    push_cast
    linarith

/-- Above the least grid a rounded mantissa has its 53 bits. -/
theorem le_nearestWhole_scaled (hq : 0 < q) (h : -1074 < grid q) : 2 ^ 52 ≤ nearestWhole (q / 2 ^ grid q) := by
  have hlow : (2 : ℚ) ^ Int.log 2 q ≤ q := Int.zpow_log_le_self one_lt_two hq
  have hgrid : Int.log 2 q = 52 + grid q := by
    rw [grid] at h ⊢
    omega
  rw [hgrid, zpow_add₀ two_ne_zero] at hlow
  refine le_nearestWhole ?_
  rw [le_div_iff₀ (zpow_pos two_pos _)]
  exact_mod_cast hlow

/-- The magnitude of a finite double. -/
def magnitude : UnpackedFloat → ℚ
  | .finite _ m e _ => m * 2 ^ e
  | _ => 0

theorem magnitude_ofRounded (s : Sign) {t : ℤ} (hn : n ≤ 2 ^ 53) : magnitude (ofRounded s n t) = n * 2 ^ t := by
  unfold ofRounded
  split
  · rename_i hzero
    rw [hzero, Nat.cast_zero, zero_mul]
    rfl
  split
  · rfl
  · rename_i hcarry
    obtain rfl : n = 2 ^ 53 := by omega
    show ((2 ^ 52 : ℕ) : ℚ) * 2 ^ (t + 1) = _
    rw [zpow_add_one₀ two_ne_zero]
    push_cast
    ring

theorem magnitude_rounded (s : Sign) (hq : 0 ≤ q) :
    magnitude (rounded s q) = nearestWhole (q / 2 ^ grid q) * 2 ^ grid q :=
  magnitude_ofRounded s (nearestWhole_scaled_le hq)

variable {k : ℤ}

/-- Rounding does not fall below a power of two. -/
theorem zpow_le_magnitude (s : Sign) (hk : -1074 ≤ k) (h : 2 ^ k ≤ q) : 2 ^ k ≤ magnitude (rounded s q) := by
  have hpos : 0 < q := (zpow_pos two_pos k).trans_le h
  have hlog : k ≤ Int.log 2 q := (Int.zpow_le_iff_le_log one_lt_two hpos).1 h
  have hlow : (2 : ℚ) ^ Int.log 2 q ≤ q := Int.zpow_log_le_self one_lt_two hpos
  -- the greatest power of two below the number is on the grid
  have hgrid : Int.log 2 q = (Int.log 2 q - grid q).toNat + grid q := by
    rw [grid]
    omega
  rw [magnitude_rounded s hpos.le]
  refine (zpow_le_zpow_right₀ one_le_two hlog).trans ?_
  generalize (Int.log 2 q - grid q).toNat = j at hgrid
  rw [hgrid, zpow_add₀ two_ne_zero, zpow_natCast] at hlow ⊢
  have hwhole : 2 ^ j ≤ nearestWhole (q / 2 ^ grid q) := by
    refine le_nearestWhole ?_
    rw [le_div_iff₀ (zpow_pos two_pos _)]
    exact_mod_cast hlow
  have : (2 ^ j : ℚ) ≤ nearestWhole (q / 2 ^ grid q) := by exact_mod_cast hwhole
  gcongr

/-! ### Overflow -/

/-- Half a step above the greatest double. -/
def limit : ℚ := (2 ^ 54 - 1) * 2 ^ (970 : ℤ)

theorem limit_lt : limit < 2 ^ (1024 : ℤ) := by
  rw [limit, show (1024 : ℤ) = 54 + 970 by rfl, zpow_add₀ two_ne_zero]
  exact mul_lt_mul_of_pos_right (by norm_num) (zpow_pos two_pos _)

theorem le_limit : 2 ^ (1023 : ℤ) ≤ limit := by
  rw [limit, show (1023 : ℤ) = 53 + 970 by rfl, zpow_add₀ two_ne_zero]
  exact mul_le_mul_of_nonneg_right (by norm_num) (zpow_pos two_pos _).le

theorem two_mul_limit : 2 * limit = (2 * (2 ^ 53 - 1 : ℕ) + 1) * 2 ^ (971 : ℤ) := by
  rw [limit, show (971 : ℤ) = 1 + 970 by rfl, zpow_add₀ two_ne_zero, ← mul_assoc, ← mul_assoc]
  norm_num

theorem within_rounded (s : Sign) (hq : 0 ≤ q) (h : q < limit) : Within (rounded s q) := by
  rcases hq.eq_or_lt with rfl | hpos
  · rw [rounded_zero]
    trivial
  have hlog : Int.log 2 q < 1024 := by
    rw [← Int.lt_zpow_iff_log_lt one_lt_two hpos]
    exact h.trans limit_lt
  have hgrid : grid q ≤ 971 := by
    rw [grid]
    omega
  refine within_ofRounded s ?_
  rcases hgrid.lt_or_eq with hlt | heq
  · exact .inl (by omega)
  · refine .inr ⟨heq, Nat.lt_of_le_of_lt (nearestWhole_le (n := 2 ^ 53 - 1) (by positivity) ?_) (by decide)⟩
    rw [heq, ← mul_div_assoc, div_lt_iff₀ (zpow_pos two_pos _), ← two_mul_limit]
    exact mul_lt_mul_of_pos_left h two_pos

theorem unpack_pack_overflow (s : Sign) (hm : 0 < m) (he : 971 < e) :
    (Float.Model.pack (.finite s m e hm)).unpack = .infinity s := by
  have hbiased : 2 ^ 11 ≤ (e + (Format.binary64.exponentBias : ℤ) + (52 : ℕ)).toNat + 1 := by
    show 2 ^ 11 ≤ (e + 1023 + 52).toNat + 1
    omega
  show unpack .binary64 (UnpackedFloat.pack .binary64 (.finite s m e hm)) = _
  have hpack : UnpackedFloat.pack .binary64 (.finite s m e hm) = packedInfinity .binary64 s := if_pos hbiased
  rw [hpack]
  cases s <;> rfl

theorem overflow_ofRounded (s : Sign) {t : ℤ} (hn : 0 < n) (h : 971 < t ∨ 971 ≤ t ∧ 2 ^ 53 ≤ n) :
    (Float.Model.pack (ofRounded s n t)).unpack = .infinity s := by
  unfold ofRounded
  rw [dif_neg hn.ne']
  split
  · exact unpack_pack_overflow s hn (by omega)
  · exact unpack_pack_overflow s _ (by omega)

theorem overflow_rounded (s : Sign) (h : limit ≤ q) : (Float.Model.pack (rounded s q)).unpack = .infinity s := by
  have hpos : 0 < q := (zpow_pos two_pos 1023).trans_le (le_limit.trans h)
  have hlog : 1023 ≤ Int.log 2 q := (Int.zpow_le_iff_le_log one_lt_two hpos).1 (le_limit.trans h)
  have hgrid : 971 ≤ grid q := by
    rw [grid]
    omega
  have hlarge := le_nearestWhole_scaled hpos (by omega)
  refine overflow_ofRounded s (by omega) ?_
  rcases hgrid.lt_or_eq with hlt | heq
  · exact .inl hlt
  · refine .inr ⟨heq.le, lt_nearestWhole (n := 2 ^ 53 - 1) (by decide) ?_⟩
    rw [← heq, ← mul_div_assoc, le_div_iff₀ (zpow_pos two_pos _), ← two_mul_limit]
    exact mul_le_mul_of_nonneg_left h two_pos.le

theorem onGrid_ofRounded (s : Sign) {t : ℤ} (ht : -1074 ≤ t) (hlarge : -1074 < t → 2 ^ 52 ≤ n)
    (h : Within (ofRounded s n t)) :
    ofRounded s n t = .zero s ∨ ∃ m e, ∃ hgrid : OnGrid m e, ofRounded s n t = .finite s m e hgrid.pos := by
  unfold ofRounded at h ⊢
  by_cases hzero : n = 0
  · exact .inl (dif_pos hzero)
  rw [dif_neg hzero] at h ⊢
  refine .inr ?_
  by_cases hlt : n < 2 ^ 53
  · rw [if_pos hlt] at h ⊢
    refine ⟨n, t, ⟨Nat.pos_of_ne_zero hzero, hlt, ?_, h⟩, rfl⟩
    have hlog := log2_le_of_lt hlt
    have hfull : -1074 < t → 52 ≤ n.log2 := fun hlt => (Nat.le_log2 hzero).2 (hlarge hlt)
    rw [gridExponent]
    omega
  · rw [if_neg hlt] at h ⊢
    refine ⟨2 ^ 52, t + 1, ⟨by decide, by decide, ?_, h⟩, rfl⟩
    rw [gridExponent, Nat.log2_two_pow]
    omega

/-- What is rounded without an overflow is a double. -/
theorem onGrid_rounded (s : Sign) (hq : 0 ≤ q) (h : q < limit) :
    rounded s q = .zero s ∨ ∃ m e, ∃ hgrid : OnGrid m e, rounded s q = .finite s m e hgrid.pos := by
  rcases hq.eq_or_lt with rfl | hpos
  · exact .inl (rounded_zero s)
  · exact onGrid_ofRounded s (ge_grid q) (le_nearestWhole_scaled hpos) (within_rounded s hq h)

theorem unpack_pack_rounded (s : Sign) (hq : 0 ≤ q) (h : q < limit) :
    (Float.Model.pack (rounded s q)).unpack = rounded s q := by
  rcases onGrid_rounded s hq h with hzero | ⟨m, e, hgrid, hfinite⟩
  · rw [hzero]
    cases s <;> rfl
  · rw [hfinite, unpack_pack s hgrid]

theorem ofRounded_eq_zero_iff (s : Sign) (n : ℕ) (t : ℤ) : ofRounded s n t = .zero s ↔ n = 0 := by
  unfold ofRounded
  split
  · rename_i hzero
    exact iff_of_true rfl hzero
  · rename_i hpos
    refine iff_of_false (fun h => ?_) hpos
    split at h <;> exact absurd h (by simp)

/-- What is rounded becomes a zero up to half the least positive double. -/
theorem rounded_eq_zero_iff (s : Sign) (hq : 0 ≤ q) : rounded s q = .zero s ↔ 2 * q ≤ 2 ^ (-1074 : ℤ) := by
  have hleast : (0 : ℚ) < 2 ^ (-1074 : ℤ) := zpow_pos two_pos _
  have hscaled : nearestWhole (q / 2 ^ (-1074 : ℤ)) = 0 ↔ 2 * q ≤ 2 ^ (-1074 : ℤ) := by
    rw [nearestWhole_eq_zero_iff (by positivity), ← mul_div_assoc, div_le_one hleast]
  rw [rounded, ofRounded_eq_zero_iff]
  rcases (ge_grid q).eq_or_lt with hgrid | hgrid
  · rw [← hgrid, hscaled]
  rcases hq.eq_or_lt with rfl | hpos
  · exact iff_of_true (by rw [zero_div]; exact nearestWhole_natCast 0) (by rw [mul_zero]; exact hleast.le)
  · -- above the least grid neither holds
    have hwhole := le_nearestWhole_scaled hpos hgrid
    refine iff_of_false (by omega) fun h => ?_
    have hlog : Int.log 2 q < -1074 := by
      rw [← Int.lt_zpow_iff_log_lt one_lt_two hpos, Nat.cast_ofNat]
      linarith
    rw [grid] at hgrid
    omega

/-! ### Reading a decimal -/

/-- The double nearest to `q`, which is not negative. -/
def nearest (q : ℚ) : Float := .ofModel (.pack (rounded .positive q))

theorem unpack_nearest (hq : 0 ≤ q) (h : q < limit) : (nearest q).toModel.unpack = rounded .positive q :=
  unpack_pack_rounded .positive hq h

theorem unpack_nearest_of_le (h : limit ≤ q) : (nearest q).toModel.unpack = .infinity .positive :=
  overflow_rounded .positive h

theorem isFinite_nearest (hq : 0 ≤ q) : (nearest q).isFinite = true ↔ q < limit := by
  refine ⟨fun h => ?_, fun h => isFinite_pack (within_rounded .positive hq h)⟩
  by_contra hle
  have hunpack : (nearest q).toModel.unpack.isFinite = true := h
  rw [unpack_nearest_of_le (not_lt.1 hle)] at hunpack
  exact absurd hunpack (by decide)

/-- A finite double that is not negative is the one nearest to its own value. -/
theorem nearest_of_onGrid (h : OnGrid m e) : (nearest (m * 2 ^ e)).toModel.unpack = .finite .positive m e h.pos := by
  show (Float.Model.pack (rounded .positive (m * 2 ^ e))).unpack = _
  rw [rounded_of_onGrid .positive h, unpack_pack .positive h]

theorem nearest_zero : nearest 0 = 0 := by
  rw [nearest, rounded_zero]
  rfl

theorem zpow_mul_fill {n k : ℕ} {t : ℤ} : ((n * 2 ^ k : ℕ) : ℚ) * 2 ^ (t - (k : ℕ)) = n * 2 ^ t := by
  rw [zpow_sub₀ two_ne_zero, zpow_natCast]
  push_cast
  field_simp

theorem tabled_powerOfTen : ∀ n : Fin Float.exactlyRepresentablePowersOfTen.size,
    Float.exactlyRepresentablePowersOfTen[n] = .ofModel (.pack (ofRounded .positive
      (5 ^ n.val * 2 ^ (52 - (5 ^ n.val).log2)) (n.val - (52 - (5 ^ n.val).log2 : ℕ)))) := by
  decide +kernel

/-- The tabled powers of ten are exact, as a power of five up to the last of them has 53 bits at most. -/
theorem unpack_powerOfTen {n : ℕ} (hn : n < Float.exactlyRepresentablePowersOfTen.size) :
    ∃ m e, ∃ h : OnGrid m e, Float.exactlyRepresentablePowersOfTen[n].toModel.unpack = .finite .positive m e h.pos ∧
      (m * 2 ^ e : ℚ) = 10 ^ n := by
  have hpos : 0 < 5 ^ n := Nat.pow_pos (by decide)
  have hlt : 5 ^ n < 2 ^ 53 := (Nat.pow_le_pow_right (by decide) (Nat.le_of_lt_succ hn)).trans_lt (by decide)
  have hgrid : OnGrid (5 ^ n * 2 ^ (52 - (5 ^ n).log2)) (n - (52 - (5 ^ n).log2 : ℕ)) :=
    onGrid_of_log2 (log2_mul_fill hpos hlt) (by omega) (by have : n < 23 := hn; omega)
  refine ⟨_, _, hgrid, ?_, ?_⟩
  · have htabled : Float.exactlyRepresentablePowersOfTen[n] = _ := tabled_powerOfTen ⟨n, hn⟩
    rw [htabled, ofRounded_of_onGrid _ hgrid]
    exact unpack_pack .positive hgrid
  · rw [zpow_mul_fill, zpow_natCast]
    push_cast
    rw [← mul_pow]
    norm_num

theorem unpack_toFloat_of_lt {n : ℕ} (hpos : 0 < n) (hn : n < 2 ^ 53) :
    ∃ m e, ∃ h : OnGrid m e, n.toUInt64.toFloat.toModel.unpack = .finite .positive m e h.pos ∧ (m * 2 ^ e : ℚ) = n := by
  have hgrid := onGrid_of_lt hpos hn
  refine ⟨_, _, hgrid, unpack_toFloat hgrid hn hpos ?_, ?_⟩
  · rw [Int.neg_neg, Int.toNat_natCast, show (-(52 - n.log2 : ℕ) : ℤ).toNat = 0 by omega, Nat.pow_zero, Nat.mul_one]
  · rw [← zero_sub, zpow_mul_fill, zpow_zero, mul_one]

/-- A short decimal is a product or a quotient of two doubles. -/
theorem ofScientific_fast {n k : ℕ} (negative : Bool) (hn : n < 2 ^ 53)
    (hk : k < Float.exactlyRepresentablePowersOfTen.size) :
    (if negative then n.toUInt64.toFloat / Float.exactlyRepresentablePowersOfTen[k]
      else n.toUInt64.toFloat * Float.exactlyRepresentablePowersOfTen[k]) =
      nearest (n * 10 ^ (if negative then -k else k : ℤ)) := by
  obtain ⟨m₂, e₂, h₂, hunpack₂, hvalue₂⟩ := unpack_powerOfTen hk
  rcases Nat.eq_zero_or_pos n with rfl | hpos
  · have hunpack : (Nat.toUInt64 0).toFloat.toModel.unpack = .zero .positive := rfl
    rw [Nat.cast_zero, zero_mul, nearest_zero]
    cases negative with
    | true =>
      show Float.ofModel (.pack (UnpackedFloat.div .binary64 (Nat.toUInt64 0).toFloat.toModel.unpack
        Float.exactlyRepresentablePowersOfTen[k].toModel.unpack)) = _
      rw [hunpack, hunpack₂]
      rfl
    | false =>
      show Float.ofModel (.pack (UnpackedFloat.mul .binary64 (Nat.toUInt64 0).toFloat.toModel.unpack
        Float.exactlyRepresentablePowersOfTen[k].toModel.unpack)) = _
      rw [hunpack, hunpack₂]
      rfl
  obtain ⟨m₁, e₁, h₁, hunpack₁, hvalue₁⟩ := unpack_toFloat_of_lt hpos hn
  cases negative with
  | true =>
    show Float.ofModel (.pack (UnpackedFloat.div .binary64 n.toUInt64.toFloat.toModel.unpack
      Float.exactlyRepresentablePowersOfTen[k].toModel.unpack)) = _
    rw [hunpack₁, hunpack₂, div_finite, hvalue₁, hvalue₂, if_pos rfl, zpow_neg, zpow_natCast, ← div_eq_mul_inv]
    rfl
  | false =>
    show Float.ofModel (.pack (UnpackedFloat.mul .binary64 n.toUInt64.toFloat.toModel.unpack
      Float.exactlyRepresentablePowersOfTen[k].toModel.unpack)) = _
    rw [hunpack₁, hunpack₂, mul_finite _ _ h₁ h₂, hvalue₁, hvalue₂, if_neg Bool.false_ne_true, zpow_natCast]
    rfl

theorem limit_le_of_large {n : ℕ} {k : ℤ} (hn : 0 < n) (hk : 2 ^ 11 < k) : limit ≤ n * 10 ^ k := by
  have hone : (1 : ℚ) ≤ n := by exact_mod_cast hn
  calc limit ≤ 2 ^ (1024 : ℤ) := limit_lt.le
    _ ≤ 10 ^ (1024 : ℤ) := zpow_le_zpow_left₀ (by decide) two_pos.le (by norm_num)
    _ ≤ 10 ^ k := zpow_le_zpow_right₀ (by norm_num) (by omega)
    _ ≤ n * 10 ^ k := le_mul_of_one_le_left (by positivity) hone

theorem two_mul_lt_of_small {n : ℕ} {k : ℤ} (hk : k < -(2 ^ 11 + n.log2)) : 2 * (n * 10 ^ k : ℚ) < 2 ^ (-1074 : ℤ) := by
  have hlog : (n : ℚ) < 2 ^ (n.log2 + 1 : ℤ) := by exact_mod_cast Nat.lt_log2_self (n := n)
  have hpower : (10 : ℚ) ^ k ≤ 2 ^ k := by
    rw [← neg_neg k, zpow_neg, zpow_neg 2]
    exact inv_anti₀ (zpow_pos two_pos _) (zpow_le_zpow_left₀ (by omega) two_pos.le (by norm_num))
  calc 2 * (n * 10 ^ k : ℚ) ≤ 2 * (n * 2 ^ k) := by gcongr
    _ < 2 * (2 ^ (n.log2 + 1 : ℤ) * 2 ^ k) :=
      mul_lt_mul_of_pos_left (mul_lt_mul_of_pos_right hlog (zpow_pos two_pos _)) two_pos
    _ = 2 ^ (n.log2 + 2 + k : ℤ) := by
      rw [zpow_add₀ two_ne_zero, zpow_add₀ two_ne_zero, zpow_add₀ two_ne_zero]
      norm_num
      ring
    _ ≤ 2 ^ (-1074 : ℤ) := zpow_le_zpow_right₀ one_le_two (by omega)

/-- A long one is multiplied out, unless its exponent alone decides. -/
theorem ofScientific_slow (n : ℕ) (k : ℤ) : Float.ofModel (Float.Model.ofScientific n k) = nearest (n * 10 ^ k) := by
  rw [Float.Model.ofScientific]
  unfold UnpackedFloat.ofScientific
  split
  · rename_i hzero
    rw [hzero, Nat.cast_zero, zero_mul, nearest_zero]
    rfl
  rename_i hn
  have hpos : 0 < n := Nat.pos_of_ne_zero hn
  split
  · rename_i hlarge
    refine eq_of_unpack ?_
    rw [unpack_nearest_of_le (limit_le_of_large hpos hlarge)]
    rfl
  split
  · rename_i hsmall
    rw [nearest, (rounded_eq_zero_iff _ (by positivity)).2 (two_mul_lt_of_small hsmall).le]
  split
  · rename_i hsign
    obtain ⟨j, rfl⟩ := Int.eq_ofNat_of_zero_le hsign
    have hvalue : ((n <<< 53 : ℕ) * 2 ^ (-53 : ℤ) * ((10 ^ j : ℕ) * 2 ^ (0 : ℤ)) : ℚ) = n * 10 ^ (j : ℤ) := by
      have hcancel := zpow_mul_fill (n := n) (k := 53) (t := 0)
      rw [Nat.shiftLeft_eq, show (-53 : ℤ) = 0 - (53 : ℕ) by rfl, hcancel, zpow_zero, mul_one, mul_one, zpow_natCast]
      push_cast
      rfl
    have hshift : 0 < n <<< 53 := Nat.shiftLeft_pos_iff.2 hpos
    have hlog : 53 ≤ (n <<< 53 * 10 ^ j).log2 := by
      refine le_trans ?_ (log2_mul_ge_left hshift (Nat.pow_pos (by decide)))
      rw [Nat.shiftLeft_eq, log2_mul_two_pow hpos]
      omega
    have hgrid : (-53 + 0 : ℤ) ≤ gridExponent (n <<< 53 * 10 ^ j) (-53 + 0) := by
      rw [gridExponent]
      omega
    rw [nearest, ← hvalue]
    exact congrArg (fun u => Float.ofModel (.pack u)) (mul_eq_rounded .positive .positive hshift _ hgrid)
  · rename_i hsign
    have hvalue : (n * 2 ^ (0 : ℤ) / ((10 ^ (-k).toNat : ℕ) * 2 ^ (0 : ℤ)) : ℚ) = n * 10 ^ k := by
      obtain ⟨j, hj⟩ := Int.eq_ofNat_of_zero_le (show 0 ≤ -k by omega)
      rw [hj, ← neg_neg k, hj, zpow_neg, zpow_natCast, zpow_zero, mul_one, mul_one, Int.toNat_natCast]
      push_cast
      rfl
    rw [nearest, ← hvalue]
    exact congrArg (fun u => Float.ofModel (.pack u)) (div_finite .positive .positive hpos _)

theorem ofScientific_eq_nearest (n : ℕ) (negative : Bool) (k : ℕ) :
    Float.ofScientific n negative k = nearest (n * 10 ^ (if negative then -k else k : ℤ)) := by
  unfold Float.ofScientific
  split
  · rename_i h
    exact ofScientific_fast negative h.1 (Nat.lt_succ_of_le h.2)
  · rw [ofScientific_slow]
    cases negative
    · rfl
    · rw [if_pos rfl, if_pos rfl, Int.negOfNat_eq]
      rfl

theorem toFloat_eq_nearest (d : Decimal) : d.toFloat = nearest (d.coefficient * 10 ^ d.power) := by
  rw [Decimal.toFloat, ofScientific_eq_nearest]
  congr 3
  simp only [decide_eq_true_eq]
  omega

end Double
end Phasor
