import Phasor.Proofs.RootFaults
import Phasor.Proofs.Spacing
import Phasor.Proofs.Tolerances

/-!
# The degree of a root

The degree of a root is the floor of a double that a half is added to, and the sum is rounded. For a double `v` this is
the floor of `v + 1/2` (`floor_add_half`) unless the sum is rounded up to the next whole number, which it is for the
greatest double below a half and for odd numbers from `2^52` to `2^53` (`Slips`).
-/

namespace Phasor

namespace Double

open Float.Model Float.Model.UnpackedFloat

/-- A half more than `v` is rounded up to a whole number. -/
def Slips (v : ℚ) : Prop :=
  v = 1 / 2 - 2 ^ (-54 : ℤ) ∨ ∃ n : ℤ, v = n ∧ n % 2 = 1 ∧ 2 ^ 52 < |n| ∧ |n| < 2 ^ 53

variable {m n : ℕ} {e k : ℤ} {q : ℚ} {x : Float}

/-! ### Doubles with and without a fraction -/

theorem OnGrid.lt_zpow (h : OnGrid m e) : (m * 2 ^ e : ℚ) < 2 ^ (e + 53) := by
  have hm : (m : ℚ) < 2 ^ (53 : ℤ) := by exact_mod_cast h.lt
  rw [add_comm e, zpow_add₀ two_ne_zero]
  exact mul_lt_mul_of_pos_right hm (zpow_pos two_pos e)

theorem OnGrid.exponent_nonneg (h : OnGrid m e) (hle : 2 ^ 52 ≤ (m * 2 ^ e : ℚ)) : 0 ≤ e := by
  have hlt : (2 : ℚ) ^ (52 : ℤ) < 2 ^ (e + 53) := lt_of_le_of_lt (by exact_mod_cast hle) h.lt_zpow
  have := (zpow_lt_zpow_iff_right₀ one_lt_two).1 hlt
  omega

theorem OnGrid.exponent_neg (h : OnGrid m e) (hlt : (m * 2 ^ e : ℚ) < 2 ^ 52) : e < 0 := by
  by_contra he
  have hfull : 52 ≤ m.log2 := by
    have := h.grid
    rw [gridExponent] at this
    omega
  have hm : 2 ^ 52 ≤ m := (Nat.le_log2 h.pos.ne').1 hfull
  have hm : (2 ^ 52 : ℚ) ≤ m := by exact_mod_cast hm
  have hstep : (1 : ℚ) ≤ 2 ^ e := one_le_zpow₀ one_le_two (not_lt.1 he)
  exact absurd (hm.trans (le_mul_of_one_le_right (Nat.cast_nonneg m) hstep)) (not_le.2 hlt)

/-- A half, on a grid of fractions. -/
theorem half_eq (he : e < 0) : (1 / 2 : ℚ) = (2 ^ (-1 - e).toNat : ℕ) * 2 ^ e := by
  have hone := mul_zpow_eq 1 (show e ≤ -1 by omega)
  rw [Nat.cast_one, one_mul, zpow_neg_one, Nat.one_mul] at hone
  rw [one_div, hone]

/-- Adding a half leaves the grid as it is, up to the next power of two. -/
theorem magnitude_add_half (h : OnGrid m e) (he : e < 0) (hn : 1 ≤ n) (hle : n ≤ (m * 2 ^ e : ℚ))
    (hlt : (m * 2 ^ e : ℚ) < n + 1 / 2) : magnitude (rounded .positive (m * 2 ^ e + 1 / 2)) = m * 2 ^ e + 1 / 2 := by
  have hsum : (m * 2 ^ e + 1 / 2 : ℚ) = (m + 2 ^ (-1 - e).toNat : ℕ) * 2 ^ e := by
    rw [Nat.cast_add, add_mul, ← half_eq he]
  have hn' : (1 : ℚ) ≤ n := by exact_mod_cast hn
  have hbound : (n : ℚ) < 2 ^ (e + 53) := hle.trans_lt h.lt_zpow
  have hexponent : 0 ≤ e + 53 := by
    by_contra hneg
    have : (2 : ℚ) ^ (e + 53) ≤ 1 := zpow_le_one_of_nonpos₀ one_le_two (by omega)
    linarith
  have hwhole : (n : ℚ) + 1 ≤ 2 ^ (e + 53) := by
    rw [← Int.toNat_of_nonneg hexponent, zpow_natCast] at hbound ⊢
    exact_mod_cast hbound
  exact magnitude_eq_of_grid .positive (grid_le (by linarith) h.ge (by linarith)) hsum

theorem magnitude_sub_half (h : OnGrid m e) (he : e < 0) (hlt : 1 / 2 < (m * 2 ^ e : ℚ)) :
    magnitude (rounded .positive (m * 2 ^ e - 1 / 2)) = m * 2 ^ e - 1 / 2 := by
  have hle : 2 ^ (-1 - e).toNat ≤ m := by
    rw [half_eq he] at hlt
    exact_mod_cast (lt_of_mul_lt_mul_right hlt (zpow_pos two_pos e).le).le
  have hdifference : (m * 2 ^ e - 1 / 2 : ℚ) = (m - 2 ^ (-1 - e).toNat : ℕ) * 2 ^ e := by
    rw [Nat.cast_sub hle, sub_mul, ← half_eq he]
  have hbound := h.lt_zpow
  exact magnitude_eq_of_grid .positive (grid_le (by linarith) h.ge (by linarith)) hdifference

/-! ### Below a half -/

/-- The greatest double below a half. -/
theorem value_le_of_lt_half (hx : x.isFinite = true) (h : value x < 1 / 2) : value x ≤ 1 / 2 - 2 ^ (-54 : ℤ) := by
  have hquarter : (1 / 4 : ℚ) ≤ 1 / 2 - 2 ^ (-54 : ℤ) := by norm_num
  rcases lt_or_ge (value x) (1 / 4) with hlt | hge
  · exact (hlt.trans_le hquarter).le
  rcases finite_cases hx with ⟨s, hzero⟩ | ⟨s, m, e, hgrid, hfinite⟩
  · rw [value_of_zero hzero] at hge
    norm_num at hge
  have hvalue : value x = m * 2 ^ e := by
    rw [← abs_value_of_finite hfinite, abs_of_nonneg (by linarith)]
  rw [hvalue] at h hge ⊢
  have hexponent : -54 ≤ e := by
    have hlow : (2 : ℚ) ^ (-2 : ℤ) < 2 ^ (e + 53) := lt_of_le_of_lt (by norm_num; linarith) hgrid.lt_zpow
    have := (zpow_lt_zpow_iff_right₀ one_lt_two).1 hlow
    omega
  -- the double is a multiple of the step below a half
  rw [mul_zpow_eq m hexponent] at h ⊢
  have hmultiple : m * 2 ^ (e - -54).toNat < 2 ^ 53 := by
    rw [show (1 / 2 : ℚ) = (2 ^ 53 : ℕ) * 2 ^ (-54 : ℤ) by norm_num] at h
    exact_mod_cast lt_of_mul_lt_mul_right h (zpow_pos two_pos _).le
  have hle : ((m * 2 ^ (e - -54).toNat : ℕ) : ℚ) ≤ 2 ^ 53 - 1 := by
    have : ((m * 2 ^ (e - -54).toNat + 1 : ℕ) : ℚ) ≤ (2 ^ 53 : ℕ) := by exact_mod_cast hmultiple
    push_cast at this ⊢
    linarith
  calc _ ≤ (2 ^ 53 - 1) * (2 : ℚ) ^ (-54 : ℤ) := mul_le_mul_of_nonneg_right hle (zpow_pos two_pos _).le
    _ = 1 / 2 - 2 ^ (-54 : ℤ) := by norm_num

theorem magnitude_rounded_from_half (h : 1 / 2 ≤ q) (h' : q < 1) :
    magnitude (rounded .positive q) = nearestWhole (q * 2 ^ (53 : ℕ)) * 2 ^ (-53 : ℤ) := by
  have hgrid : grid q = -53 :=
    (grid_le (by linarith) (by decide) (by simpa using h')).antisymm (le_grid (by norm_num; linarith))
  rw [magnitude_rounded _ (by linarith), hgrid, zpow_neg, div_inv_eq_mul]
  rfl

/-- The sum of a half and a smaller double is rounded to one for the greatest of them only. -/
theorem magnitude_add_half_of_lt (h : 0 ≤ q) (h' : q ≤ 1 / 2 - 2 ^ (-54 : ℤ)) :
    (q = 1 / 2 - 2 ^ (-54 : ℤ) → magnitude (rounded .positive (q + 1 / 2)) = 1) ∧
    (q ≠ 1 / 2 - 2 ^ (-54 : ℤ) → magnitude (rounded .positive (q + 1 / 2)) < 1) := by
  have hstep : (2 : ℚ) ^ (-54 : ℤ) * 2 ^ (53 : ℕ) = 1 / 2 := by norm_num
  have hpos : (0 : ℚ) < 2 ^ (-54 : ℤ) := zpow_pos two_pos _
  rw [magnitude_rounded_from_half (by linarith) (by linarith)]
  constructor
  · rintro rfl
    have hsum : (1 / 2 - 2 ^ (-54 : ℤ) + 1 / 2 : ℚ) * 2 ^ (53 : ℕ) = (2 ^ 53 - 1 : ℕ) + 1 / 2 := by norm_num
    rw [hsum, nearestWhole_add_half]
    norm_num
  · intro hne
    have hlt : q + 1 / 2 < 1 - 2 ^ (-54 : ℤ) := by
      have := lt_of_le_of_ne h' hne
      linarith
    have hscaled : 2 * ((q + 1 / 2) * 2 ^ (53 : ℕ)) < 2 * (2 ^ 53 - 1 : ℕ) + 1 := by
      have := mul_lt_mul_of_pos_right hlt (show (0 : ℚ) < 2 ^ (53 : ℕ) by norm_num)
      rw [sub_mul, hstep] at this
      push_cast
      linarith
    have hwhole : (nearestWhole ((q + 1 / 2) * 2 ^ (53 : ℕ)) : ℚ) ≤ (2 ^ 53 - 1 : ℕ) := by
      exact_mod_cast nearestWhole_le (by positivity) hscaled
    calc _ ≤ ((2 ^ 53 - 1 : ℕ) : ℚ) * 2 ^ (-53 : ℤ) := mul_le_mul_of_nonneg_right hwhole (zpow_pos two_pos _).le
      _ < 1 := by norm_num

/-! ### Whole doubles -/

theorem mod_two_of_whole {N : ℕ} (he : 1 ≤ e) (hN : (N : ℚ) = m * 2 ^ e) : N % 2 = 0 := by
  rw [mul_zpow_eq m he, zpow_one] at hN
  have heven : N = m * 2 ^ (e - 1).toNat * 2 := by exact_mod_cast hN
  rw [heven, Nat.mul_mod_left]

/-- A number a half off a whole double is rounded to that, unless the halves are on the grid or the double is odd. -/
theorem magnitude_of_whole {N M : ℕ} (he : 0 ≤ e) (hN : (N : ℚ) = m * 2 ^ e)
    (hM : |(M + 1 / 2 : ℚ) - N| = 1 / 2) (hgrid : grid (M + 1 / 2) ≤ e) :
    (M < 2 ^ 52 ∧ magnitude (rounded .positive (M + 1 / 2)) = M + 1 / 2) ∨
    magnitude (rounded .positive (M + 1 / 2)) = (M + M % 2 : ℕ) ∨
    N % 2 = 0 ∧ magnitude (rounded .positive (M + 1 / 2)) = N := by
  have hq : (0 : ℚ) ≤ M + 1 / 2 := by positivity
  rcases lt_trichotomy (grid (M + 1 / 2 : ℚ)) 0 with hneg | hzero | hpos
  · -- the halves are on the grid
    refine .inl ⟨?_, ?_⟩
    · by_contra hlarge
      have hlow : (2 : ℚ) ^ (0 + 52 : ℤ) ≤ M := by exact_mod_cast not_lt.1 hlarge
      exact absurd (le_grid (hlow.trans (le_add_of_nonneg_right one_half_pos.le))) (not_le.2 hneg)
    · have hhalves : (M + 1 / 2 : ℚ) = (2 * M + 1 : ℕ) * 2 ^ (-1 : ℤ) := by
        rw [zpow_neg_one]
        push_cast
        ring
      exact magnitude_eq_of_grid .positive (by omega) hhalves
  · refine .inr (.inl ?_)
    rw [magnitude_rounded _ hq, hzero, zpow_zero, div_one, mul_one, nearestWhole_add_half]
  · -- the step of the grid is two at least
    have hstep : (2 : ℚ) ≤ 2 ^ grid (M + 1 / 2 : ℚ) := by
      have hone : (2 : ℚ) ^ (1 : ℤ) ≤ 2 ^ grid (M + 1 / 2 : ℚ) := zpow_le_zpow_right₀ one_le_two (by omega)
      rwa [zpow_one] at hone
    refine .inr (.inr ⟨mod_two_of_whole (by omega) hN, ?_⟩)
    rw [magnitude_rounded _ hq, hN, mul_zpow_eq m hgrid]
    congr 2
    refine nearestWhole_eq (div_nonneg hq (zpow_pos two_pos _).le) ?_
    have hN' : (N : ℚ) = _ := hN.trans (mul_zpow_eq m hgrid)
    rw [← mul_div_cancel_right₀ ((m * 2 ^ _ : ℕ) : ℚ) (zpow_ne_zero (grid (M + 1 / 2 : ℚ)) two_ne_zero), ← hN',
      ← sub_div, abs_div, hM, abs_of_pos (zpow_pos two_pos _), div_lt_iff₀ (zpow_pos two_pos _)]
    linarith

theorem roundsTo_add_half (hx : x.isFinite = true) : RoundsTo (x + 0.5) (value x + 1 / 2) := by
  have hsum := roundsTo_add hx (show (0.5 : Float).isFinite = true by decide)
  rwa [value_half] at hsum

/-- The whole doubles on which a half slips are the odd ones. -/
theorem slips_iff_of_whole {N : ℕ} (h : OnGrid m e) (he : 0 ≤ e) (hN : (N : ℚ) = m * 2 ^ e) (hle : 2 ^ 52 ≤ N)
    (hq : |q| = N) : Slips q ↔ N % 2 = 1 := by
  have hle' : (2 ^ 52 : ℚ) ≤ N := by exact_mod_cast hle
  constructor
  · rintro (rfl | ⟨n, rfl, hodd, -, -⟩)
    · rw [abs_of_nonneg (by norm_num)] at hq
      rw [← hq] at hle'
      norm_num at hle'
    · have habs : |n| = N := by exact_mod_cast hq
      rw [Int.abs_eq_natAbs] at habs
      omega
  · intro hodd
    have hexponent : e = 0 := by
      by_contra hne
      have := mod_two_of_whole (by omega) hN
      omega
    have hlt : N < 2 ^ 53 := by
      rw [hexponent, zpow_zero, mul_one] at hN
      have : N = m := by exact_mod_cast hN
      exact this ▸ h.lt
    rcases abs_cases q with ⟨habs, -⟩ | ⟨habs, -⟩
    · refine .inr ⟨N, by rw [← habs, hq]; rfl, by omega, ?_⟩
      rw [abs_of_nonneg (by omega)]
      omega
    · refine .inr ⟨-N, by push_cast; linarith, by omega, ?_⟩
      rw [abs_neg, abs_of_nonneg (by omega)]
      omega

theorem exists_whole (h : OnGrid m e) (he : 0 ≤ e) (hle : 2 ^ 52 ≤ (m * 2 ^ e : ℚ)) :
    ∃ N : ℕ, (N : ℚ) = m * 2 ^ e ∧ 2 ^ 52 ≤ N ∧ (N : ℚ) + 1 ≤ 2 ^ (e + 53) := by
  have hN := mul_zpow_eq m he
  rw [zpow_zero, mul_one] at hN
  have hlt := h.lt_zpow
  rw [hN, ← Int.toNat_of_nonneg (show 0 ≤ e + 53 by omega), zpow_natCast] at hlt
  rw [hN] at hle
  refine ⟨m * 2 ^ (e - 0).toNat, hN.symm, by exact_mod_cast hle, ?_⟩
  rw [← Int.toNat_of_nonneg (show 0 ≤ e + 53 by omega), zpow_natCast]
  exact_mod_cast hlt

theorem floor_add_half_of_whole (hx : x.isFinite = true) (hle : 2 ^ 52 ≤ |value x|) :
    ∃ N : ℕ, (Slips (value x) ↔ N % 2 = 1) ∧ ⌊value (x + 0.5)⌋ = ⌊value x + 1 / 2⌋ + (N % 2 : ℕ) := by
  have hsum := roundsTo_add_half hx
  have hfinite := isFinite_add_half hx
  rcases finite_cases hx with ⟨s, hzero⟩ | ⟨s, m, e, hgrid, hunpack⟩
  · rw [value_of_zero hzero, abs_zero] at hle
    norm_num at hle
  have habs : |value x| = m * 2 ^ e := abs_value_of_finite hunpack
  rw [habs] at hle
  have he : 0 ≤ e := hgrid.exponent_nonneg hle
  obtain ⟨N, hN, hlarge, hbound⟩ := exists_whole hgrid he hle
  refine ⟨N, slips_iff_of_whole hgrid he hN hlarge (habs.trans hN.symm), ?_⟩
  rcases abs_cases (value x) with ⟨hvalue, -⟩ | ⟨hvalue, -⟩
  · have hvalue : value x = N := by rw [← hvalue, habs, hN]
    rw [hvalue] at hsum ⊢
    have hgrid' : grid (N + 1 / 2) ≤ e := grid_le (by positivity) hgrid.ge (by linarith)
    have hfloor : ⌊(N + 1 / 2 : ℚ)⌋ = N := Int.floor_eq_iff.2 ⟨by push_cast; linarith, by push_cast; linarith⟩
    rw [hsum.value_of_nonneg hfinite (by positivity), hfloor]
    rcases magnitude_of_whole he hN (by rw [add_sub_cancel_left, abs_of_pos one_half_pos]) hgrid' with
      ⟨hsmall, -⟩ | hround | ⟨heven, hround⟩
    · omega
    · rw [hround, Int.floor_natCast]
      push_cast
      rfl
    · rw [hround, Int.floor_natCast, heven]
      rfl
  · -- the magnitude is half a step below the one of the number
    obtain ⟨M, rfl⟩ : ∃ M, N = M + 1 := ⟨N - 1, by omega⟩
    push_cast at hN hbound
    have hvalue : value x + 1 / 2 = -(M + 1 / 2) := by linarith
    rw [hvalue] at hsum ⊢
    have hgrid' : grid (M + 1 / 2) ≤ e := grid_le (by positivity) hgrid.ge (by linarith)
    have hfloor : ⌊-(M + 1 / 2 : ℚ)⌋ = -(M + 1) := Int.floor_eq_iff.2 ⟨by push_cast; linarith, by push_cast; linarith⟩
    rw [hsum.value_of_neg hfinite (neg_neg_of_pos (by positivity)), neg_neg, hfloor]
    have hdistance : |(M + 1 / 2 : ℚ) - (M + 1 : ℕ)| = 1 / 2 := by
      push_cast
      rw [show (M + 1 / 2 : ℚ) - (M + 1) = -(1 / 2) by ring, abs_neg, abs_of_pos one_half_pos]
    rcases magnitude_of_whole he (by push_cast; exact hN) hdistance hgrid' with
      ⟨hsmall, hround⟩ | hround | ⟨heven, hround⟩
    · rw [hround, hfloor]
      omega
    · rw [hround, ← Int.cast_natCast, ← Int.cast_neg, Int.floor_intCast]
      omega
    · rw [hround, ← Int.cast_natCast, ← Int.cast_neg, Int.floor_intCast, heven]
      omega

theorem grid_nonpos (h : q < 2 ^ 53) : grid q ≤ 0 := by
  rcases le_or_gt q 0 with hle | hpos
  · rw [grid, Int.log_of_right_le_zero 2 hle]
    decide
  · exact grid_le hpos (by decide) (by exact_mod_cast h)

/-- Below minus a half the sum is a double itself. -/
theorem value_add_half_of_lt (hx : x.isFinite = true) (hlt : |value x| < 2 ^ 52) (h : value x < -(1 / 2)) :
    value (x + 0.5) = value x + 1 / 2 := by
  rcases finite_cases hx with ⟨s, hzero⟩ | ⟨s, m, e, hgrid, hunpack⟩
  · rw [value_of_zero hzero] at h
    norm_num at h
  have habs := abs_value_of_finite hunpack
  rw [habs] at hlt
  rw [abs_of_neg (by linarith)] at habs
  have hopposite : -(value x + 1 / 2) = m * 2 ^ e - 1 / 2 := by
    rw [← habs]
    ring
  rw [(roundsTo_add_half hx).value_of_neg (isFinite_add_half hx) (by linarith), hopposite,
    magnitude_sub_half hgrid (hgrid.exponent_neg hlt) (by linarith), ← hopposite, neg_neg]

/-- So it is if the fraction of a number above one is less than a half. -/
theorem value_add_half_of_le (hx : x.isFinite = true) (hlt : |value x| < 2 ^ 52) (hn : 1 ≤ n) (hle : n ≤ value x)
    (hfraction : value x < n + 1 / 2) : value (x + 0.5) = value x + 1 / 2 := by
  have hn' : (1 : ℚ) ≤ n := by exact_mod_cast hn
  rcases finite_cases hx with ⟨s, hzero⟩ | ⟨s, m, e, hgrid, hunpack⟩
  · rw [value_of_zero hzero] at hle
    linarith
  have habs := abs_value_of_finite hunpack
  rw [habs] at hlt
  rw [abs_of_pos (by linarith)] at habs
  rw [(roundsTo_add_half hx).value_of_nonneg (isFinite_add_half hx) (by linarith), habs]
  rw [habs] at hle hfraction
  exact magnitude_add_half hgrid (hgrid.exponent_neg hlt) hn hle hfraction

theorem floor_add_half_of_fraction (hx : x.isFinite = true) (hlt : |value x| < 2 ^ 52) :
    (value x = 1 / 2 - 2 ^ (-54 : ℤ) → ⌊value (x + 0.5)⌋ = ⌊value x + 1 / 2⌋ + 1) ∧
    (value x ≠ 1 / 2 - 2 ^ (-54 : ℤ) → ⌊value (x + 0.5)⌋ = ⌊value x + 1 / 2⌋) := by
  have hsum := roundsTo_add_half hx
  have hfinite := isFinite_add_half hx
  have hslip : (0 : ℚ) < 1 / 2 - 2 ^ (-54 : ℤ) := by norm_num
  rcases lt_or_ge (value x + 1 / 2) 0 with hneg | hq
  · rw [value_add_half_of_lt hx hlt (by linarith)]
    exact ⟨fun h => by linarith, fun _ => rfl⟩
  obtain ⟨n, hn⟩ : ∃ n : ℕ, ⌊value x + 1 / 2⌋ = n := ⟨_, (Int.toNat_of_nonneg (Int.floor_nonneg.2 hq)).symm⟩
  obtain ⟨hlow, hhigh⟩ := Int.floor_eq_iff.1 hn
  rw [Int.cast_natCast] at hlow hhigh
  have hgrid : grid (value x + 1 / 2) ≤ 0 := grid_nonpos (by linarith [le_abs_self (value x)])
  have hkept : (n : ℚ) ≤ value (x + 0.5) := by
    have := le_magnitude_of_grid (k := 0) .positive hq hgrid (by rwa [zpow_zero, mul_one])
    rwa [zpow_zero, mul_one, ← hsum.value_of_nonneg hfinite hq] at this
  have hfloor : value (x + 0.5) < n + 1 → ⌊value (x + 0.5)⌋ = ⌊value x + 1 / 2⌋ := fun h =>
    hn ▸ Int.floor_eq_iff.2 ⟨by exact_mod_cast hkept, by exact_mod_cast h⟩
  rcases lt_or_ge (value x + 1 / 2) (n + 1 / 2) with hbelow | habove
  · have hround : value (x + 0.5) < n + 1 := by
      rw [hsum.value_of_nonneg hfinite hq]
      exact magnitude_lt_add_one .positive hq hgrid hbelow
    refine ⟨fun h => ?_, fun _ => hfloor hround⟩
    rw [h] at hlow hbelow
    have hzero : n < 1 := by
      have : (n : ℚ) < 1 := hlow.trans_lt (by norm_num)
      exact_mod_cast this
    rw [Nat.lt_one_iff.1 hzero] at hbelow
    norm_num at hbelow
  rcases Nat.eq_zero_or_pos n with rfl | hpos
  · rw [Nat.cast_zero, zero_add] at habove hhigh hfloor
    obtain ⟨hone, hless⟩ := magnitude_add_half_of_lt (q := value x) (by linarith)
      (value_le_of_lt_half hx (by linarith))
    rw [← hsum.value_of_nonneg hfinite hq] at hone hless
    refine ⟨fun h => ?_, fun h => hfloor (hless h)⟩
    rw [hone h, hn]
    rfl
  · have hn' : (1 : ℚ) ≤ n := by exact_mod_cast hpos
    rw [value_add_half_of_le hx hlt hpos (by linarith) (by linarith)]
    exact ⟨fun h => by linarith, fun _ => rfl⟩

/-- Where nothing slips, a half is added as if there were no rounding. -/
theorem floor_add_half (hx : x.isFinite = true) :
    (¬ Slips (value x) → ⌊value (x + 0.5)⌋ = ⌊value x + 1 / 2⌋) ∧
    (Slips (value x) → ⌊value (x + 0.5)⌋ = ⌊value x + 1 / 2⌋ + 1) := by
  rcases lt_or_ge |value x| (2 ^ 52) with hlt | hle
  · obtain ⟨hslip, hrest⟩ := floor_add_half_of_fraction hx hlt
    refine ⟨fun h => hrest fun heq => h (.inl heq), ?_⟩
    rintro (heq | ⟨n, hn, -, hlarge, -⟩)
    · exact hslip heq
    · rw [hn, ← Int.cast_abs] at hlt
      have : |n| < 2 ^ 52 := by exact_mod_cast hlt
      omega
  · obtain ⟨N, hslips, hfloor⟩ := floor_add_half_of_whole hx hle
    rw [hslips, hfloor]
    refine ⟨fun h => ?_, fun h => ?_⟩
    · rw [show N % 2 = 0 by omega]
      exact Int.add_zero _
    · rw [h]
      rfl

theorem not_slips_of_small (hlow : -(1 / 2) ≤ q) (hhigh : q < 1 / 2) (hne : q ≠ 1 / 2 - 2 ^ (-54 : ℤ)) : ¬ Slips q := by
  rintro (h | ⟨k, rfl, -, hlarge, -⟩)
  · exact hne h
  · have hlow : (-1 : ℚ) < k := by linarith
    have hhigh : (k : ℚ) < 1 := by linarith
    have hlow : -1 < k := by exact_mod_cast hlow
    have hhigh : k < 1 := by exact_mod_cast hhigh
    rw [Int.abs_eq_natAbs] at hlarge
    omega

/-- Of whole numbers only some odd ones slip. -/
theorem slips_intCast (k : ℤ) : Slips k ↔ k % 2 = 1 ∧ 2 ^ 52 < |k| ∧ |k| < 2 ^ 53 := by
  constructor
  · rintro (h | ⟨n, hn, hn'⟩)
    · have hlow : (0 : ℚ) < k := by
        rw [h]
        norm_num
      have hhigh : (k : ℚ) < 1 := by
        rw [h]
        norm_num
      have hlow : 0 < k := by exact_mod_cast hlow
      have hhigh : k < 1 := by exact_mod_cast hhigh
      omega
    · obtain rfl : k = n := by exact_mod_cast hn
      exact hn'
  · intro h
    exact .inr ⟨k, rfl, h⟩

end Double

open Double (value Slips)

theorem roundHalfUp_eq {x : Float} (hx : x.isFinite = true) : roundHalfUp x = .ok ⌊value (x + 0.5)⌋ := by
  obtain ⟨d, hd⟩ := Double.exists_ofFloat? (Double.isFinite_add_half hx)
  rw [roundHalfUp, hd, ← Dyadic.floor_eq hd]

theorem Complex.nthRoot_zero [Elementary] (z : Complex) : z.nthRoot (.int 0) = .error (.eval (.invalidDegree (.int 0))) := rfl

/-- The degree of a root is the floor of its real part and a half, or one more where the sum slips. A whole degree is
used as it is unless it is odd and between `2^52` and `2^53` in magnitude, and the degrees around zero, up to a half,
are rejected but for the greatest of them. -/
theorem applyRoot_rounds_degree [Elementary] (z degree : Complex) (hre : degree.re.isFinite = true)
    (him : ¬ degree.im.abs > degreeBound) :
    ∃ n : ℤ, roundHalfUp degree.re = .ok n ∧ applyRoot z degree = z.nthRoot (.int n) ∧
      (¬ Slips (value degree.re) → n = ⌊value degree.re + 1 / 2⌋) ∧
      (Slips (value degree.re) → n = ⌊value degree.re + 1 / 2⌋ + 1) ∧
      (∀ k : ℤ, value degree.re = k → (n = k ↔ ¬ (k % 2 = 1 ∧ 2 ^ 52 < |k| ∧ |k| < 2 ^ 53))) ∧
      (-(1 / 2) ≤ value degree.re → value degree.re < 1 / 2 → value degree.re ≠ 1 / 2 - 2 ^ (-54 : ℤ) →
        applyRoot z degree = .error (.eval (.invalidDegree (.int 0)))) := by
  obtain ⟨hkept, hslip⟩ := Double.floor_add_half hre
  have hn := roundHalfUp_eq hre
  have hroot : applyRoot z degree = z.nthRoot (.int ⌊value (degree.re + 0.5)⌋) := by
    rw [applyRoot, if_neg him, hn]
  refine ⟨_, hn, hroot, hkept, hslip, fun k hk => ?_, fun hlow hhigh hne => ?_⟩
  · have hfloor : ⌊(k + 1 / 2 : ℚ)⌋ = k := Int.floor_eq_iff.2 ⟨by linarith, by linarith⟩
    rw [hk, hfloor, Double.slips_intCast] at hkept hslip
    refine ⟨fun h hodd => ?_, hkept⟩
    rw [hslip hodd] at h
    omega
  · have hzero : ⌊value degree.re + 1 / 2⌋ = 0 := Int.floor_eq_iff.2 ⟨by push_cast; linarith, by push_cast; linarith⟩
    rw [hroot, hkept (Double.not_slips_of_small hlow hhigh hne), hzero, Complex.nthRoot_zero]

/-- Five halves are rounded up, and a quarter is rounded to zero. -/
theorem applyRoot_rounds_five_halves :
    roundHalfUp 2.5 = .ok 3 ∧ applyRoot ⟨4, 0⟩ ⟨2.5, 0⟩ = Complex.nthRoot ⟨4, 0⟩ (.int 3) ∧
      applyRoot ⟨4, 0⟩ ⟨0.25, 0⟩ = .error (.eval (.invalidDegree (.int 0))) := by
  have hvalue : value 2.5 = 5 / 2 := by
    have hunpack : (2.5 : Float).toModel.unpack = .finite .positive (5 * 2 ^ 50) (-51) (by decide) := by rfl
    rw [Double.value_of_finite hunpack, Double.factor]
    norm_num
  have hquarter : value 0.25 = 1 / 4 := by
    have hunpack : (0.25 : Float).toModel.unpack = .finite .positive (2 ^ 52) (-54) (by decide) := by rfl
    rw [Double.value_of_finite hunpack, Double.factor]
    norm_num
  obtain ⟨n, hn, hroot, hfloor, -⟩ := applyRoot_rounds_degree ⟨4, 0⟩ ⟨2.5, 0⟩ (by decide +kernel) (by decide +kernel)
  obtain ⟨-, -, -, -, -, -, hrejected⟩ :=
    applyRoot_rounds_degree ⟨4, 0⟩ ⟨0.25, 0⟩ (by decide +kernel) (by decide +kernel)
  have hthree : n = 3 := by
    have hnot : ¬ Slips (5 / 2) := by
      rintro (h | ⟨k, hk, -⟩)
      · norm_num at h
      · have : (5 : ℚ) = 2 * k := by linarith
        have : (5 : ℤ) = 2 * k := by exact_mod_cast this
        omega
    dsimp only at hfloor
    rw [hvalue] at hfloor
    rw [hfloor hnot]
    norm_num
  subst hthree
  dsimp only at hrejected
  rw [hquarter] at hrejected
  exact ⟨hn, hroot, hrejected (by norm_num) (by norm_num) (by norm_num)⟩

/-- The greatest double below a half is rounded to one, and an odd number to an even one. -/
theorem roundHalfUp_slips :
    (⌊value 0.49999999999999994 + 1 / 2⌋ = 0 ∧ roundHalfUp 0.49999999999999994 = .ok 1 ∧
      applyRoot ⟨4, 0⟩ ⟨0.49999999999999994, 0⟩ ≠ .error (.eval (.invalidDegree (.int 0)))) ∧
    value 4503599627370497 = 4503599627370497 ∧ roundHalfUp 4503599627370497 = .ok 4503599627370498 := by
  have hvalue : value 0.49999999999999994 = 1 / 2 - 2 ^ (-54 : ℤ) := by
    have hunpack : (0.49999999999999994 : Float).toModel.unpack =
        .finite .positive (2 ^ 53 - 1) (-54) (by decide) := by rfl
    rw [Double.value_of_finite hunpack, Double.factor]
    norm_num
  have hodd : value 4503599627370497 = 4503599627370497 := by
    have hunpack : (4503599627370497 : Float).toModel.unpack =
        .finite .positive 4503599627370497 0 (by decide) := by rfl
    rw [Double.value_of_finite hunpack, Double.factor]
    norm_num
  refine ⟨⟨?_, by decide +kernel, fun h => ?_⟩, hodd, by decide +kernel⟩
  · rw [hvalue, Int.floor_eq_iff]
    norm_num
  · have hroot : applyRoot ⟨4, 0⟩ ⟨0.49999999999999994, 0⟩ = Complex.nthRoot ⟨4, 0⟩ (.int 1) := by
      have hone : roundHalfUp 0.49999999999999994 = .ok 1 := by decide +kernel
      have him : ¬ (0 : Float).abs > degreeBound := by decide +kernel
      rw [applyRoot, if_neg him, hone]
    rw [hroot] at h
    rcases Complex.nthRoot_eq_error h with h | h | h <;> exact absurd h (by simp)

end Phasor
