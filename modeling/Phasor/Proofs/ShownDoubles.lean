import Mathlib
import Phasor.Proofs.DecimalTexts
import Phasor.Proofs.Magnitudes

/-!
# Doubles in writing read back

The shortest decimal of a double reads back as that double (`toFloat_shortest`): a candidate is taken only if it does,
and the whole expansion does because a number on the grid is its own rounding. So does the text of a double, whole
numbers in full and the others as their shortest decimals (`exists_toList_real`). A finite double stays finite when it is
rounded to decimal places, and to ten places it is then zero or well above what is shown as zero (`roundPlaces_cases`).
-/

namespace Phasor.Decimal

open Float.Model Float.Model.UnpackedFloat
open Double (nearest limit OnGrid)
open Numeral (withSign Writes IsDigits)

variable {x : Float} {s : Sign} {m : ℕ} {e : ℤ} {hm : 0 < m}

/-! ### A dyadic number as a fraction -/

theorem ofFloat?_of_finite (h : x.toModel.unpack = .finite s m e hm) :
    Dyadic.ofFloat? x = some ⟨s == .negative, m, e⟩ := by
  rw [Dyadic.ofFloat?, h]

theorem num_div_den (d : Dyadic) : (d.num / d.den : ℚ) = d.mantissa * 2 ^ d.exponent := by
  have hden : d.den = 2 ^ (-d.exponent).toNat := rfl
  have hnum : d.num = d.mantissa * 2 ^ d.exponent.toNat := rfl
  rw [hden, hnum]
  push_cast
  rw [mul_div_assoc, ← zpow_natCast, ← zpow_natCast, ← zpow_sub₀ two_ne_zero]
  congr 2
  omega

/-! ### The shortest decimal -/

theorem toFloat_of_withDigits? {d : Dyadic} {k : ℤ} {n : ℕ} {c : Decimal} (h : x.toModel.unpack = .finite s m e hm)
    (hc : withDigits? x d k n = some c) : c.toFloat = x := by
  unfold withDigits? at hc
  dsimp only at hc
  generalize d.num * Nat.pow 10 (-(k - n + 1)).toNat = a at hc
  generalize d.den * Nat.pow 10 (k - n + 1).toNat = b at hc
  split at hc
  · rename_i hbelow habove
    obtain rfl := Option.some.inj hc
    -- both neighbours read back, and the nearer of them is one of the two
    rcases roundHalfEven_cases a b with hround | hround
    · rw [hround]
      exact Double.eq_of_beq_finite h hbelow
    · rw [hround]
      exact Double.eq_of_beq_finite h habove
  · rename_i hbelow _
    obtain rfl := Option.some.inj hc
    exact Double.eq_of_beq_finite h hbelow
  · rename_i _ habove
    obtain rfl := Option.some.inj hc
    exact Double.eq_of_beq_finite h habove
  · exact absurd hc (by simp)

theorem toFloat_exact (h : x.toModel.unpack = .finite .positive m e hm) (negative : Bool) :
    (exact ⟨negative, m, e⟩).toFloat = x := by
  have hfraction := num_div_den ⟨negative, m, e⟩
  have hden : (Dyadic.den ⟨negative, m, e⟩ : ℚ) = 2 ^ (-e).toNat := by
    show ((2 ^ (-e).toNat : ℕ) : ℚ) = _
    push_cast
    rfl
  have hvalue : ((Dyadic.num ⟨negative, m, e⟩ * 5 ^ (-e).toNat : ℕ) : ℚ) * 10 ^ (-(-e).toNat : ℤ) = m * 2 ^ e := by
    rw [← hfraction, hden, zpow_neg, zpow_natCast, show (10 : ℚ) = 2 * 5 by norm_num, mul_pow]
    push_cast
    field_simp
  rw [Double.toFloat_eq_nearest]
  show nearest (((Dyadic.num ⟨negative, m, e⟩ * 5 ^ (-e).toNat : ℕ) : ℚ) * 10 ^ (-(-e).toNat : ℤ)) = x
  rw [hvalue, Double.nearest_eq_self h]

theorem toFloat_shortest (h : x.toModel.unpack = .finite .positive m e hm) (negative : Bool) :
    (shortest x ⟨negative, m, e⟩).toFloat = x := by
  unfold shortest
  dsimp only
  cases hfound : (List.range' 1 17).findSome? (withDigits? x ⟨negative, m, e⟩
      (leadingPower (Dyadic.num ⟨negative, m, e⟩) (Dyadic.den ⟨negative, m, e⟩))) with
  | none => exact toFloat_exact h negative
  | some c =>
    obtain ⟨n, -, hc⟩ := List.exists_of_findSome?_eq_some hfound
    exact toFloat_of_withDigits? h hc

theorem coefficient_shortest_pos (h : x.toModel.unpack = .finite .positive m e hm) (negative : Bool) :
    0 < (shortest x ⟨negative, m, e⟩).coefficient := by
  refine Nat.pos_of_ne_zero fun hzero => ?_
  have hread := toFloat_shortest h negative
  rw [Double.toFloat_eq_nearest, hzero, Nat.cast_zero, zero_mul, Double.nearest_zero] at hread
  rw [← hread] at h
  exact absurd h (by simp [show (0 : Float).toModel.unpack = .zero .positive from rfl])

/-! ### Texts -/

/-- A minus in front of a negative number. -/
def minus : Sign → List Char
  | .negative => ['-']
  | .positive => []

theorem toList_text (h : x.toModel.unpack = .finite s m e hm) : (text x).toList =
    minus s ++ (layout ".0" (shortest x.abs ⟨s == .negative, m, e⟩)).toList := by
  have hminus : (if (s == .negative) = true then "-" else "").toList = minus s := by cases s <;> rfl
  rw [text, signed, ofFloat?_of_finite h]
  dsimp only
  rw [if_neg hm.ne', String.toList_append, hminus]

theorem toList_toString_int (k : ℕ) : (toString (k : ℤ)).toList = Nat.toDigits 10 k :=
  Nat.toList_repr

theorem toList_toString_neg {k : ℕ} (hk : 0 < k) : (toString (-(k : ℤ))).toList = '-' :: Nat.toDigits 10 k := by
  obtain ⟨n, rfl⟩ := Nat.exists_eq_add_of_lt hk
  rw [Nat.zero_add]
  show ("-" ++ (n + 1).repr).toList = _
  rw [String.toList_append, Nat.toList_repr]
  rfl

/-- A whole number is its floor. -/
theorem toList_floor {d : Dyadic} (hd : 0 < d.mantissa) (h : d.isInteger = true) (hs : d.negative = (s == .negative)) :
    (toString d.floor).toList = minus s ++ Nat.toDigits 10 (d.num / d.den) := by
  have hpos := d.den_pos
  have hdvd : d.num / d.den * d.den = d.num := Nat.div_mul_cancel (Nat.dvd_of_mod_eq_zero (eq_of_beq h))
  have hnum : 0 < d.num := Nat.mul_pos hd (Nat.two_pow_pos _)
  have hquotient : 0 < d.num / d.den := Nat.pos_of_ne_zero fun hzero => by
    rw [hzero, Nat.zero_mul] at hdvd
    omega
  have hden : (d.den : ℤ) ≠ 0 := by exact_mod_cast hpos.ne'
  cases s with
  | negative =>
    have hfloor : d.floor = -((d.num / d.den : ℕ) : ℤ) := by
      rw [Dyadic.floor, Dyadic.signedNum, hs, if_pos (by rfl)]
      refine Int.ediv_eq_of_eq_mul_left hden ?_
      rw [Int.neg_mul, ← Nat.cast_mul, hdvd]
    rw [hfloor, toList_toString_neg hquotient]
    rfl
  | positive =>
    have hfloor : d.floor = ((d.num / d.den : ℕ) : ℤ) := by
      rw [Dyadic.floor, Dyadic.signedNum, hs, if_neg (by decide)]
      refine Int.ediv_eq_of_eq_mul_left hden ?_
      rw [← Nat.cast_mul, hdvd]
    rw [hfloor, toList_toString_int]
    rfl

/-- The text of a double, its sign apart, is a numeral whose value is its magnitude. -/
theorem exists_toList_real (h : x.toModel.unpack = .finite s m e hm) :
    ∃ body q, (real x).toList = minus s ++ body ∧ Writes body q ∧ nearest q = x.abs := by
  have habs := Double.unpack_abs h
  unfold real
  rw [ofFloat?_of_finite h]
  dsimp only
  split
  · rename_i hinteger
    refine ⟨_, _, toList_floor hm hinteger rfl, writes_digits (isDigits_toDigits _) Nat.toDigits_ne_nil, ?_⟩
    have hdvd := Nat.dvd_of_mod_eq_zero (eq_of_beq hinteger)
    rw [Nat.ofDigitChars_ten_toDigits, Nat.cast_div hdvd (by exact_mod_cast (Dyadic.den_pos _).ne'), num_div_den]
    exact Double.nearest_eq_self habs
  · refine ⟨_, _, toList_text h, writes_layout (.inr rfl) (coefficient_shortest_pos habs _), ?_⟩
    rw [← Double.toFloat_eq_nearest, toFloat_shortest habs]

/-! ### Rounding to decimal places -/

/-- The whole number of steps a magnitude is rounded to. -/
def steps (places : ℕ) (d : Dyadic) : ℕ := roundHalfEven (d.num * Nat.pow 10 places) d.den

theorem roundPlaces_eq {d : Dyadic} (hd : Dyadic.ofFloat? x = some d) (places : ℕ) :
    roundPlaces places x = withSign d.negative (nearest (steps places d * 10 ^ (-places : ℤ))) := by
  rw [roundPlaces, hd]
  dsimp only
  rw [Double.ofScientific_eq_nearest, if_pos rfl]
  rfl

theorem onGrid_lt_limit (h : OnGrid m e) : (m * 2 ^ e : ℚ) < limit := by
  have hm : (m : ℚ) ≤ 2 ^ 53 - 1 := by
    have := h.lt
    have : ((m + 1 : ℕ) : ℚ) ≤ (2 ^ 53 : ℕ) := by exact_mod_cast this
    push_cast at this
    linarith
  have he : (2 : ℚ) ^ e ≤ 2 ^ (971 : ℤ) := zpow_le_zpow_right₀ one_le_two h.le
  have hstep : (0 : ℚ) < 2 ^ (970 : ℤ) := zpow_pos two_pos _
  calc (m * 2 ^ e : ℚ) ≤ (2 ^ 53 - 1) * 2 ^ (971 : ℤ) := mul_le_mul hm he (by positivity) (by norm_num)
    _ = (2 ^ 54 - 2) * 2 ^ (970 : ℤ) := by
      rw [show (971 : ℤ) = 1 + 970 by rfl, zpow_add₀ two_ne_zero, zpow_one, ← mul_assoc]
      norm_num
    _ < limit := mul_lt_mul_of_pos_right (by norm_num) hstep

/-- A whole number stays as it is, and every other double is below `2^53`. -/
theorem steps_lt_limit {negative : Bool} (h : OnGrid m e) (places : ℕ) :
    (steps places ⟨negative, m, e⟩ * 10 ^ (-places : ℤ) : ℚ) < limit := by
  have hten : (0 : ℚ) < 10 ^ places := by positivity
  have hfraction := num_div_den ⟨negative, m, e⟩
  rw [zpow_neg, zpow_natCast, ← div_eq_mul_inv, steps]
  by_cases he : 0 ≤ e
  · have hden : Dyadic.den ⟨negative, m, e⟩ = 1 := by
      show 2 ^ (-e).toNat = 1
      rw [show (-e).toNat = 0 by omega, Nat.pow_zero]
    have hpow : ((Dyadic.num ⟨negative, m, e⟩ * Nat.pow 10 places : ℕ) : ℚ) = Dyadic.num ⟨negative, m, e⟩ * 10 ^ places := by
      show ((Dyadic.num ⟨negative, m, e⟩ * 10 ^ places : ℕ) : ℚ) = _
      push_cast
      rfl
    rw [hden, Nat.cast_one, div_one] at hfraction
    rw [hden, roundHalfEven_of_dvd Nat.one_pos (Nat.one_dvd _), Nat.div_one, hpow, mul_div_cancel_right₀ _ hten.ne',
      hfraction]
    exact onGrid_lt_limit h
  · have hnum : Dyadic.num ⟨negative, m, e⟩ = m := by
      show m * 2 ^ e.toNat = m
      rw [show e.toNat = 0 by omega, Nat.pow_zero, Nat.mul_one]
    have hsteps : roundHalfEven (m * 10 ^ places) (Dyadic.den ⟨negative, m, e⟩) ≤ 2 ^ 53 * 10 ^ places := by
      refine roundHalfEven_le ?_
      have hlt := Nat.mul_lt_mul_of_pos_right h.lt (Nat.pow_pos (n := places) (show 0 < 10 by decide))
      have hden := Nat.le_mul_of_pos_right (2 * (2 ^ 53 * 10 ^ places) + 1) (Dyadic.den_pos ⟨negative, m, e⟩)
      omega
    have hsteps' : (roundHalfEven (m * 10 ^ places) (Dyadic.den ⟨negative, m, e⟩) : ℚ) ≤ 2 ^ 53 * 10 ^ places := by
      exact_mod_cast hsteps
    rw [hnum, div_lt_iff₀ hten]
    refine hsteps'.trans_lt (mul_lt_mul_of_pos_right ?_ hten)
    refine lt_of_lt_of_le ?_ Double.le_limit
    rw [← zpow_natCast]
    exact zpow_lt_zpow_right₀ one_lt_two (by norm_num)

/-- The steps of a finite double are a double. -/
theorem steps_lt_limit_of_ofFloat? {d : Dyadic} (hd : Dyadic.ofFloat? x = some d) (places : ℕ) :
    (steps places d * 10 ^ (-places : ℤ) : ℚ) < limit := by
  unfold Dyadic.ofFloat? at hd
  split at hd
  · obtain rfl := Option.some.inj hd
    rename_i s _
    have hzero : steps places ⟨s == .negative, 0, 0⟩ = 0 := by
      show roundHalfEven (0 * _ * _) 1 = 0
      rw [Nat.zero_mul, Nat.zero_mul]
      rfl
    rw [hzero, Nat.cast_zero, zero_mul]
    exact (zpow_pos two_pos _).trans_le Double.le_limit
  · rename_i s m e hm hx
    obtain rfl := Option.some.inj hd
    exact steps_lt_limit (Double.onGrid_of_unpack hx) places
  · exact absurd hd (by simp)
  · exact absurd hd (by simp)

/-- From the magnitude of a tenth place on the exponent is above that of what is shown as zero. -/
theorem exponent_of_magnitude (h : OnGrid m e) (hlow : (2 : ℚ) ^ (-34 : ℤ) ≤ m * 2 ^ e) : -86 ≤ e := by
  have hm : (m : ℚ) < 2 ^ (53 : ℤ) := by exact_mod_cast h.lt
  have hlt : (2 : ℚ) ^ (-34 : ℤ) < 2 ^ (53 + e) := by
    rw [zpow_add₀ two_ne_zero]
    exact hlow.trans_lt (mul_lt_mul_of_pos_right hm (zpow_pos two_pos e))
  have := (zpow_lt_zpow_iff_right₀ one_lt_two).1 hlt
  omega

/-- Rounded to ten places a double is zero, or has a magnitude of a step at least. -/
theorem roundPlaces_cases (h : x.isFinite = true) :
    (∃ s, (roundPlaces 10 x).toModel.unpack = .zero s) ∨
    ∃ s m e, ∃ hm : 0 < m, (roundPlaces 10 x).toModel.unpack = .finite s m e hm ∧ -86 ≤ e := by
  obtain ⟨d, hd⟩ := Double.exists_ofFloat? h
  have hlimit := steps_lt_limit_of_ofFloat? hd 10
  have hnonneg : (0 : ℚ) ≤ steps 10 d * 10 ^ (-(10 : ℕ) : ℤ) := by positivity
  rw [roundPlaces_eq hd]
  rcases Nat.eq_zero_or_pos (steps 10 d) with hzero | hpos
  · rw [hzero, Nat.cast_zero, zero_mul, Double.nearest_zero]
    cases d.negative with
    | true => exact .inl ⟨.negative, rfl⟩
    | false => exact .inl ⟨.positive, rfl⟩
  have hone : (1 : ℚ) ≤ steps 10 d := by exact_mod_cast hpos
  have hlow : (2 : ℚ) ^ (-34 : ℤ) ≤ steps 10 d * 10 ^ (-(10 : ℕ) : ℤ) :=
    calc (2 : ℚ) ^ (-34 : ℤ) ≤ 1 * 10 ^ (-(10 : ℕ) : ℤ) := by norm_num
      _ ≤ steps 10 d * 10 ^ (-(10 : ℕ) : ℤ) := by gcongr
  have hmagnitude := Double.zpow_le_magnitude .positive (by decide) hlow
  have hunpack := Double.unpack_nearest hnonneg hlimit
  rcases Double.onGrid_rounded .positive hnonneg hlimit with hzero | ⟨m, e, hgrid, hfinite⟩
  · rw [hzero] at hmagnitude
    exact absurd hmagnitude (not_le.2 (zpow_pos two_pos _))
  · rw [hfinite] at hmagnitude hunpack
    exact .inr ⟨_, m, e, hgrid.pos, Double.unpack_withSign d.negative hunpack, exponent_of_magnitude hgrid hmagnitude⟩

end Phasor.Decimal
