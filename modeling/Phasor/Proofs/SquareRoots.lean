import Phasor.Dyadic
import Phasor.Proofs.Values

/-!
# Square roots

A square root is rounded from a number that lies with it between two neighbours of a grid (`sqrt_eq_rounded`), and that
number is at most twice the root. That is enough for what the principal root of a complex number needs: the square root
of a finite double that is not negative is finite (`isFinite_sqrt`).
-/

namespace Phasor.Double

open Float.Model Float.Model.UnpackedFloat

variable {s : Sign} {m n : ℕ} {e : ℤ} {x y : Float} {q : ℚ}

/-- Rounding does not fall below a double. -/
theorem le_magnitude (s : Sign) (h : OnGrid m e) (hle : m * 2 ^ e ≤ q) : m * 2 ^ e ≤ magnitude (rounded s q) := by
  have hm : (0 : ℚ) < m := by exact_mod_cast h.pos
  have hpos : 0 < q := (by positivity : (0 : ℚ) < m * 2 ^ e).trans_le hle
  have hexponent : e ≤ grid q := by
    have hlog : Int.log 2 (m * 2 ^ e : ℚ) ≤ Int.log 2 q := Int.log_mono_right (by positivity) hle
    have hgrid := h.grid
    rw [← grid_eq_gridExponent h.pos, grid] at hgrid
    rw [grid]
    omega
  rcases hexponent.lt_or_eq with hlt | rfl
  · -- then a power of two lies between them
    have hlog : e + 53 ≤ Int.log 2 q := by
      have := h.ge
      rw [grid] at hlt
      omega
    have hhigh : (m : ℚ) * 2 ^ e ≤ 2 ^ (e + 53) := by
      rw [add_comm, zpow_add₀ two_ne_zero]
      have : (m : ℚ) ≤ 2 ^ (53 : ℤ) := by exact_mod_cast h.lt.le
      gcongr
    refine hhigh.trans (zpow_le_magnitude s (by have := h.ge; omega) ?_)
    exact (zpow_le_zpow_right₀ one_le_two hlog).trans (Int.zpow_log_le_self one_lt_two hpos)
  · rw [magnitude_rounded s hpos.le]
    have hwhole : m ≤ nearestWhole (q / 2 ^ grid q) := by
      refine le_nearestWhole ?_
      rwa [le_div_iff₀ (zpow_pos two_pos _)]
    have : (m : ℚ) ≤ nearestWhole (q / 2 ^ grid q) := by exact_mod_cast hwhole
    gcongr

/-! ### The integer root and its rest -/

/-- Four times the root, with what the rest says about its fraction: none, below a half or above it. -/
def fourfoldRoot (m : ℕ) : ℕ :=
  4 * m.sqrt + if m - m.sqrt * m.sqrt = 0 then 0 else if m - m.sqrt * m.sqrt ≤ m.sqrt then 1 else 3

theorem fourfoldRoot_div (m : ℕ) : fourfoldRoot m / 4 = m.sqrt := by
  unfold fourfoldRoot
  split
  · omega
  · split <;> omega

theorem le_fourfoldRoot (m : ℕ) : 4 * m.sqrt ≤ fourfoldRoot m := Nat.le_add_right ..

theorem fourfoldRoot_lt (m : ℕ) : fourfoldRoot m < 4 * (m.sqrt + 1) := by
  unfold fourfoldRoot
  split
  · omega
  · split <;> omega

theorem accuracy_fourfoldRoot (m : ℕ) : accuracyOfFraction (fourfoldRoot m % 4) 4 =
    if m - m.sqrt * m.sqrt = 0 then .exact else .inexact (if m - m.sqrt * m.sqrt ≤ m.sqrt then .lt else .gt) := by
  unfold fourfoldRoot
  by_cases hzero : m - m.sqrt * m.sqrt = 0
  · rw [if_pos hzero, if_pos hzero, Nat.mul_add_mod]
    rfl
  · rw [if_neg hzero, if_neg hzero, Nat.mul_add_mod]
    by_cases hle : m - m.sqrt * m.sqrt ≤ m.sqrt
    · rw [if_pos hle, if_pos hle]
      rfl
    · rw [if_neg hle, if_neg hle]
      rfl

/-- The exponent of the root lets it have 53 bits, or is the least one. -/
def rootExponent (m : ℕ) (e : ℤ) : ℤ :=
  min (e.ediv 2) (Format.binary64.targetExponent ((totalExponent m e + 1).ediv 2))

theorem two_mul_rootExponent_le (m : ℕ) (e : ℤ) : 2 * rootExponent m e ≤ e := by
  rw [rootExponent, show e.ediv 2 = e / 2 by rfl]
  omega

/-- The mantissa whose integer root is rounded. -/
def radicand (m : ℕ) (e : ℤ) : ℕ := m <<< (e - 2 * rootExponent m e).toNat

theorem radicand_pos (hm : 0 < m) (e : ℤ) : 0 < radicand m e := Nat.shiftLeft_pos_iff.2 hm

theorem cast_radicand (m : ℕ) (e : ℤ) :
    (radicand m e : ℚ) * (2 ^ rootExponent m e * 2 ^ rootExponent m e) = m * 2 ^ e := by
  have hle := two_mul_rootExponent_le m e
  have hshift : e = (e - 2 * rootExponent m e).toNat + (rootExponent m e + rootExponent m e) := by omega
  rw [radicand, Nat.shiftLeft_eq, ← zpow_add₀ two_ne_zero]
  generalize rootExponent m e = t at hshift
  generalize (e - 2 * t).toNat = k at hshift
  rw [hshift, zpow_add₀ two_ne_zero (k : ℤ), zpow_natCast]
  push_cast
  ring

/-- The number a root is rounded from: it lies with the root between two neighbours of the grid, and on the same side of
a half. -/
def rootEstimate (m : ℕ) (e : ℤ) : ℚ := fourfoldRoot (radicand m e) / 4 * 2 ^ rootExponent m e

theorem log2_le_sqrt (hm : 0 < m) : m.log2 / 2 ≤ m.sqrt.log2 := by
  refine (Nat.le_log2 (Nat.sqrt_pos.2 hm).ne').2 (Nat.le_sqrt.2 ?_)
  rw [← Nat.pow_add]
  refine le_trans (Nat.pow_le_pow_right two_pos ?_) (Nat.log2_self_le hm.ne')
  omega

theorem rootExponent_le_grid (hm : 0 < m) (e : ℤ) : rootExponent m e ≤ grid (rootEstimate m e) := by
  have hbits : Format.binary64.mantissaBits = 53 := rfl
  have hmin : Format.binary64.minExponent = -1074 := rfl
  have hroot : 0 < (radicand m e).sqrt := Nat.sqrt_pos.2 (radicand_pos hm e)
  have hlog : (radicand m e).log2 = m.log2 + (e - 2 * rootExponent m e).toNat := by
    rw [radicand, Nat.shiftLeft_eq, log2_mul_two_pow hm]
  have hhalf := log2_le_sqrt (radicand_pos hm e)
  have hle : ((radicand m e).sqrt : ℚ) ≤ fourfoldRoot (radicand m e) / 4 := by
    rw [le_div_iff₀ (by norm_num), mul_comm]
    exact_mod_cast le_fourfoldRoot (radicand m e)
  have hlow : ((radicand m e).sqrt.log2 + rootExponent m e : ℤ) ≤
      Int.log 2 (rootEstimate m e) := by
    rw [← log_natCast, ← log_mul_zpow (by exact_mod_cast hroot), rootEstimate]
    refine Int.log_mono_right (by positivity) ?_
    gcongr
  have hexponent : rootExponent m e =
    min (e / 2) (max ((m.log2 + 1 + e + 1) / 2 - 53) (-1074)) := rfl
  have htwice := two_mul_rootExponent_le m e
  rw [grid]
  omega

theorem sqrt_eq_rounded (hm : 0 < m) (e : ℤ) : UnpackedFloat.sqrt .binary64 (.finite .positive m e hm) =
    rounded .positive (rootEstimate m e) := by
  have hpos : 0 < fourfoldRoot (radicand m e) := by
    have := le_fourfoldRoot (radicand m e)
    have := Nat.sqrt_pos.2 (radicand_pos hm e)
    omega
  show roundWithAccuracy .binary64 .positive (radicand m e).sqrt (rootExponent m e)
    (if radicand m e - (radicand m e).sqrt * (radicand m e).sqrt = 0 then .exact else
      .inexact (if radicand m e - (radicand m e).sqrt * (radicand m e).sqrt ≤ (radicand m e).sqrt then .lt else .gt)) = _
  rw [← accuracy_fourfoldRoot, ← fourfoldRoot_div]
  have h := roundWithAccuracy_eq_rounded .positive hpos (d := 4) (by decide) (rootExponent_le_grid hm e)
  exact_mod_cast h

theorem rootEstimate_nonneg (m : ℕ) (e : ℤ) : 0 ≤ rootEstimate m e := by
  unfold rootEstimate
  positivity

/-- It is not rounded from more than twice the root. -/
theorem rootEstimate_mul_self_le (hm : 0 < m) (e : ℤ) : rootEstimate m e * rootEstimate m e ≤ 4 * (m * 2 ^ e) := by
  have hpos : 0 < (radicand m e).sqrt := Nat.sqrt_pos.2 (radicand_pos hm e)
  have hroot : (fourfoldRoot (radicand m e) / 4 : ℚ) ≤ 2 * (radicand m e).sqrt := by
    have hnat : fourfoldRoot (radicand m e) ≤ 8 * (radicand m e).sqrt := by
      have := fourfoldRoot_lt (radicand m e)
      omega
    have : (fourfoldRoot (radicand m e) : ℚ) ≤ 8 * (radicand m e).sqrt := by exact_mod_cast hnat
    linarith
  have hsquare : ((radicand m e).sqrt * (radicand m e).sqrt : ℚ) ≤ radicand m e := by
    exact_mod_cast Nat.sqrt_le (radicand m e)
  have hfour : (fourfoldRoot (radicand m e) / 4 * (fourfoldRoot (radicand m e) / 4) : ℚ) ≤ 4 * radicand m e :=
    calc (fourfoldRoot (radicand m e) / 4 * (fourfoldRoot (radicand m e) / 4) : ℚ)
        ≤ 2 * (radicand m e).sqrt * (2 * (radicand m e).sqrt) := mul_self_le_mul_self (by positivity) hroot
      _ = 4 * ((radicand m e).sqrt * (radicand m e).sqrt) := by ring
      _ ≤ 4 * radicand m e := by linarith
  rw [rootEstimate, mul_mul_mul_comm, ← cast_radicand m e, ← mul_assoc 4]
  exact mul_le_mul_of_nonneg_right hfour (mul_self_nonneg _)

/-! ### Roots of doubles -/

theorem isFinite_sqrt (hx : x.isFinite = true) (hnonneg : 0 ≤ value x) : (Float.sqrt x).isFinite = true := by
  refine isFinite_pack (u := UnpackedFloat.sqrt .binary64 x.toModel.unpack) ?_
  have hlimit := (abs_value_lt_limit hx).trans limit_lt
  rcases finite_cases hx with ⟨s, hx⟩ | ⟨s, m, e, hgrid, hx⟩
  · rw [hx]
    trivial
  rw [abs_value_of_finite hx] at hlimit
  have hmagnitude : (0 : ℚ) < m * 2 ^ e := mul_pos (by exact_mod_cast hgrid.pos) (zpow_pos two_pos e)
  cases s with
  | negative =>
    rw [value_of_finite hx, factor] at hnonneg
    linarith
  | positive =>
    rw [hx, sqrt_eq_rounded hgrid.pos e]
    -- twice the root of a double is far below the limit
    have hlarge : rootEstimate m e * rootEstimate m e < 2 ^ (1023 : ℤ) * 2 ^ (1023 : ℤ) := by
      rw [← zpow_add₀ two_ne_zero]
      calc rootEstimate m e * rootEstimate m e ≤ 4 * (m * 2 ^ e) := rootEstimate_mul_self_le hgrid.pos e
        _ < 2 ^ (2 : ℤ) * 2 ^ (1024 : ℤ) := mul_lt_mul' (by norm_num) hlimit hmagnitude.le (zpow_pos two_pos 2)
        _ = 2 ^ (2 + 1024 : ℤ) := (zpow_add₀ two_ne_zero 2 1024).symm
        _ ≤ 2 ^ (1023 + 1023 : ℤ) := zpow_le_zpow_right₀ one_le_two (by decide)
    have hlt := lt_of_mul_self_lt_mul_self₀ (zpow_pos two_pos _).le hlarge
    exact within_rounded _ (rootEstimate_nonneg m e) (hlt.trans_le le_limit)

theorem isFinite_of_sqrt {u : UnpackedFloat} (h : (UnpackedFloat.sqrt .binary64 u).isFinite = true) :
    u.isFinite = true := by
  cases u with
  | notANumber => exact absurd h Bool.false_ne_true
  | infinity s => cases s <;> exact absurd h Bool.false_ne_true
  | zero s => rfl
  | finite s m e hm => rfl

theorem value_two : value 2 = 2 := by
  have hunpack : (2 : Float).toModel.unpack = .finite .positive (2 ^ 52) (-51) (by decide) := by rfl
  rw [value_of_finite hunpack, factor]
  norm_num

theorem roundsTo_half (hx : x.isFinite = true) : RoundsTo (x / 2) (value x / 2) := by
  have hhalf := roundsTo_div hx (y := 2) (by decide) (by rw [value_two]; exact two_ne_zero)
  rwa [value_two] at hhalf

theorem isFinite_sqrt_half_iff (h : x.isFinite = true → 0 ≤ value x) :
    (Float.sqrt (x / 2)).isFinite = true ↔ x.isFinite = true := by
  constructor
  · intro hroot
    have hhalf : (x / 2).isFinite = true := isFinite_of_sqrt (isFinite_of_pack hroot)
    exact isFinite_of_div (isFinite_of_pack hhalf)
  · intro hx
    have hle : |value x / 2| ≤ |value x| := by
      rw [abs_div, abs_two]
      exact half_le_self (abs_nonneg _)
    have hhalf := roundsTo_half hx
    have hfinite := hhalf.isFinite_iff.2 (hle.trans_lt (abs_value_lt_limit hx))
    exact isFinite_sqrt hfinite (hhalf.nonneg hfinite (div_nonneg (h hx) zero_le_two))

theorem abs_value_le_magnitude (s : Sign) (hx : x.isFinite = true) (hle : |value x| ≤ q) :
    |value x| ≤ magnitude (rounded s q) := by
  rcases finite_cases hx with ⟨s', hx⟩ | ⟨s', m, e, hgrid, hx⟩
  · rw [value_of_zero hx, abs_zero]
    exact magnitude_nonneg _
  · rw [abs_value_of_finite hx] at hle ⊢
    exact le_magnitude s hgrid hle

end Phasor.Double
