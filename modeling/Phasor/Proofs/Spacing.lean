import Phasor.Proofs.Values

/-!
# Rounding between the numbers of a grid

The number nearest to `q` is at most half a step away (`abs_nearestWhole_sub_le`). A bound that lies on the grid around
`q`, or on a coarser one, is kept by rounding (`le_magnitude_of_grid`, `magnitude_le_of_grid`), so a number on such a grid
is its own rounding.
-/

namespace Phasor

namespace Decimal

theorem roundHalfEven_bounds (m : ℕ) {d : ℕ} (hd : 0 < d) :
    2 * m ≤ (2 * roundHalfEven m d + 1) * d ∧ 2 * roundHalfEven m d * d ≤ 2 * m + d := by
  have hdivision := Nat.div_add_mod m d
  have hstep : ∀ k, 2 * (m / d + k) * d = 2 * (d * (m / d)) + 2 * (k * d) := fun k => by ring
  have hrest := Nat.mod_lt m hd
  unfold roundHalfEven
  dsimp only
  split
  · rename_i hcompare
    rw [Nat.compare_eq_lt] at hcompare
    have := hstep 0
    rw [Nat.add_zero] at this
    rw [Nat.add_mul, this]
    omega
  · rename_i hcompare
    rw [Nat.compare_eq_eq] at hcompare
    rw [Nat.add_mul, hstep]
    rcases Nat.mod_two_eq_zero_or_one (m / d) with heven | hodd
    · rw [heven]
      omega
    · rw [hodd]
      omega
  · rename_i hcompare
    rw [Nat.compare_eq_gt] at hcompare
    rw [Nat.add_mul, hstep]
    omega

end Decimal

namespace Double

open Float.Model Float.Model.UnpackedFloat
open Decimal (roundHalfEven roundHalfEven_bounds)

variable {q : ℚ} {n : ℕ} {k : ℤ}

/-! ### Whole numbers -/

theorem abs_nearestWhole_sub_le (hq : 0 ≤ q) : |nearestWhole q - q| ≤ 1 / 2 := by
  have hden : (0 : ℚ) < q.den := by exact_mod_cast q.den_pos
  obtain ⟨hlow, hhigh⟩ := roundHalfEven_bounds q.num.natAbs q.den_pos
  have hlow : 2 * (q.num.natAbs : ℚ) ≤ (2 * nearestWhole q + 1) * q.den := by exact_mod_cast hlow
  have hhigh : 2 * (nearestWhole q : ℚ) * q.den ≤ 2 * q.num.natAbs + q.den := by exact_mod_cast hhigh
  have hscaled : (q.num.natAbs : ℚ) = q * q.den := by
    rw [Nat.cast_natAbs, abs_of_nonneg (Rat.num_nonneg.2 hq), Rat.mul_den_eq_num]
  rw [hscaled] at hlow hhigh
  have hlow : 2 * q ≤ 2 * nearestWhole q + 1 := le_of_mul_le_mul_right (by linarith) hden
  have hhigh : 2 * (nearestWhole q : ℚ) ≤ 2 * q + 1 := le_of_mul_le_mul_right (by linarith) hden
  rw [abs_le]
  constructor <;> linarith

theorem nearestWhole_eq (hq : 0 ≤ q) (h : |q - n| < 1 / 2) : nearestWhole q = n := by
  have hnear := (abs_sub_le (nearestWhole q : ℚ) q n).trans_lt (add_lt_add_of_le_of_lt (abs_nearestWhole_sub_le hq) h)
  rw [show (1 / 2 + 1 / 2 : ℚ) = 1 by norm_num] at hnear
  have hinteger : |((nearestWhole q : ℤ) - (n : ℤ))| < 1 := by exact_mod_cast hnear
  have hzero := Int.abs_lt_one_iff.1 hinteger
  omega

/-- A half goes to the even neighbour. -/
theorem nearestWhole_add_half (n : ℕ) : nearestWhole (n + 1 / 2) = n + n % 2 := by
  have hquotient : (n + 1 / 2 : ℚ) = (2 * n + 1 : ℕ) / (2 : ℕ) := by
    push_cast
    ring
  rw [hquotient, nearestWhole_div _ two_pos, roundHalfEven, show (2 * n + 1) % 2 = 1 by omega,
    show (2 * n + 1) / 2 = n by omega]
  rfl

/-! ### Grids -/

theorem grid_le (hq : 0 < q) (hk : -1074 ≤ k) (h : q < 2 ^ (k + 53)) : grid q ≤ k := by
  have hlog : Int.log 2 q < k + 53 := (Int.lt_zpow_iff_log_lt one_lt_two hq).1 h
  rw [grid]
  omega

theorem le_grid (h : 2 ^ (k + 52) ≤ q) : k ≤ grid q := by
  have hlog : k + 52 ≤ Int.log 2 q := (Int.zpow_le_iff_le_log one_lt_two ((zpow_pos two_pos _).trans_le h)).1 h
  rw [grid]
  omega

/-- A number of a grid, on a finer one. -/
theorem mul_zpow_eq (n : ℕ) {t : ℤ} (h : t ≤ k) : (n * 2 ^ k : ℚ) = (n * 2 ^ (k - t).toNat : ℕ) * 2 ^ t := by
  have hexponent : k = (k - t).toNat + t := by omega
  generalize (k - t).toNat = j at hexponent
  rw [hexponent, zpow_add₀ two_ne_zero, zpow_natCast]
  push_cast
  ring

theorem le_magnitude_of_grid (s : Sign) (hq : 0 ≤ q) (hk : grid q ≤ k) (h : n * 2 ^ k ≤ q) :
    n * 2 ^ k ≤ magnitude (rounded s q) := by
  rw [mul_zpow_eq n hk] at h ⊢
  rw [magnitude_rounded s hq]
  have hwhole := le_nearestWhole ((le_div_iff₀ (zpow_pos two_pos _)).2 h)
  exact mul_le_mul_of_nonneg_right (by exact_mod_cast hwhole) (zpow_pos two_pos _).le

theorem magnitude_le_of_grid (s : Sign) (hq : 0 ≤ q) (hk : grid q ≤ k) (h : q ≤ n * 2 ^ k) :
    magnitude (rounded s q) ≤ n * 2 ^ k := by
  rw [mul_zpow_eq n hk] at h ⊢
  rw [magnitude_rounded s hq]
  have hscaled := (div_le_iff₀ (zpow_pos two_pos (grid q))).2 h
  have hdouble := (mul_le_mul_of_nonneg_left hscaled two_pos.le).trans_lt (lt_add_one _)
  have hwhole := nearestWhole_le (div_nonneg hq (zpow_pos two_pos _).le) hdouble
  exact mul_le_mul_of_nonneg_right (by exact_mod_cast hwhole) (zpow_pos two_pos _).le

theorem magnitude_eq_of_grid (s : Sign) (hk : grid q ≤ k) (h : q = n * 2 ^ k) : magnitude (rounded s q) = q := by
  have hq : 0 ≤ q := by
    rw [h]
    exact mul_nonneg (Nat.cast_nonneg n) (zpow_pos two_pos k).le
  have hlow := le_magnitude_of_grid s hq hk h.ge
  have hhigh := magnitude_le_of_grid s hq hk h.le
  rw [← h] at hlow hhigh
  exact hhigh.antisymm hlow

/-- Halves are on the grid, or the number rounds down to a whole one. -/
theorem magnitude_lt_add_one (s : Sign) (hq : 0 ≤ q) (hgrid : grid q ≤ 0) (h : q < n + 1 / 2) :
    magnitude (rounded s q) < n + 1 := by
  rcases hgrid.eq_or_lt with hzero | hlt
  · have hwhole := nearestWhole_le (n := n) hq (by linarith)
    rw [magnitude_rounded s hq, hzero, zpow_zero, div_one, mul_one]
    exact_mod_cast Nat.lt_succ_of_le hwhole
  · have hstep : ((2 * n + 1 : ℕ) : ℚ) * 2 ^ (-1 : ℤ) = n + 1 / 2 := by
      rw [zpow_neg_one]
      push_cast
      ring
    have hle := magnitude_le_of_grid s hq (show grid q ≤ -1 by omega) (hstep ▸ h.le)
    rw [hstep] at hle
    exact hle.trans_lt (add_lt_add_of_le_of_lt le_rfl one_half_lt_one)

namespace RoundsTo

variable {x : Float}

theorem value_of_nonneg (h : RoundsTo x q) (hx : x.isFinite = true) (hq : 0 ≤ q) :
    value x = magnitude (rounded .positive q) := by
  obtain ⟨s, hsign, hvalue⟩ := h.value_eq hx
  rw [hvalue, abs_of_nonneg hq, magnitude_rounded s hq, magnitude_rounded .positive hq]
  cases s with
  | positive => exact one_mul _
  | negative =>
    have hzero : q = 0 := by
      rw [factor, abs_of_nonneg hq] at hsign
      linarith
    rw [hzero, zero_div, show nearestWhole 0 = 0 from nearestWhole_natCast 0, Nat.cast_zero, zero_mul, mul_zero]

theorem value_of_neg (h : RoundsTo x q) (hx : x.isFinite = true) (hq : q < 0) :
    value x = -magnitude (rounded .positive (-q)) := by
  obtain ⟨s, hsign, hvalue⟩ := h.value_eq hx
  have hopposite : 0 ≤ -q := (neg_pos.2 hq).le
  rw [hvalue, abs_of_neg hq, magnitude_rounded s hopposite, magnitude_rounded .positive hopposite]
  cases s with
  | negative => exact neg_one_mul _
  | positive =>
    rw [factor, abs_of_neg hq] at hsign
    linarith

end RoundsTo

end Double

end Phasor
