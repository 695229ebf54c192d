import Phasor.Equivalence.Sampling
import Phasor.Proofs.Magnitudes
import Phasor.Proofs.ShownDoubles
import Phasor.Proofs.Values

/-!
# The order of tolerances

Doubles are compared as the numbers they stand for, with the infinities at both ends of the line and NaN nowhere on
it (`Double.lt_iff_extended`). A scalar exceeds a double if its number is the greater one, whichever form it is given
in (`Scalar.exceeds_iff`), so numbers that are near are near with every greater tolerance.
-/

namespace Phasor

namespace Double

open Float.Model Float.Model.UnpackedFloat

variable {x y : Float} {m m' : ℕ} {e e' : ℤ}

/-! ### Comparing doubles -/

theorem OnGrid.magnitude_pos (h : OnGrid m e) : (0 : ℚ) < m * 2 ^ e :=
  mul_pos (by exact_mod_cast h.pos) (zpow_pos two_pos e)

theorem OnGrid.lt_of_exponent_lt (h : OnGrid m e) (h' : OnGrid m' e') (hlt : e < e') :
    (m * 2 ^ e : ℚ) < m' * 2 ^ e' := by
  have hfull : 2 ^ 52 ≤ m' := by
    have hgrid := h'.grid
    have hge := h.ge
    rw [gridExponent] at hgrid
    exact (Nat.le_log2 h'.pos.ne').1 (by omega)
  have hm : (m : ℚ) < 2 ^ 53 := by exact_mod_cast h.lt
  have hm' : (2 ^ 52 : ℚ) ≤ m' := by exact_mod_cast hfull
  calc (m * 2 ^ e : ℚ) < 2 ^ 53 * 2 ^ e := mul_lt_mul_of_pos_right hm (zpow_pos two_pos e)
    _ = 2 ^ 52 * 2 ^ (e + 1) := by rw [zpow_add_one₀ two_ne_zero]; ring
    _ ≤ 2 ^ 52 * 2 ^ e' := by gcongr; exacts [one_le_two, hlt]
    _ ≤ m' * 2 ^ e' := by gcongr

/-- Magnitudes on the grid are compared by their exponents first. -/
theorem OnGrid.compare_eq_lt_iff (h : OnGrid m e) (h' : OnGrid m' e') :
    (compare e e').then (compare m m') = .lt ↔ (m * 2 ^ e : ℚ) < m' * 2 ^ e' := by
  rcases lt_trichotomy e e' with hlt | rfl | hgt
  · rw [Int.compare_eq_lt.2 hlt]
    exact iff_of_true rfl (h.lt_of_exponent_lt h' hlt)
  · rw [Int.compare_eq_eq.2 rfl, mul_lt_mul_iff_left₀ (zpow_pos two_pos e), Nat.cast_lt]
    exact Nat.compare_eq_lt
  · rw [Int.compare_eq_gt.2 hgt]
    exact iff_of_false (by simp) (h'.lt_of_exponent_lt h hgt).not_gt

theorem lt_iff_value (hx : x.isFinite = true) (hy : y.isFinite = true) : x < y ↔ value x < value y := by
  rw [lt_iff_unpack]
  rcases finite_cases hx with ⟨s, hx⟩ | ⟨s, m, e, hgrid, hx⟩
  · rw [value_of_zero hx]
    rcases finite_cases hy with ⟨s', hy⟩ | ⟨s', m', e', hgrid', hy⟩
    · rw [value_of_zero hy, hx, hy]
      exact iff_of_false (by simp [UnpackedFloat.compare]) (lt_irrefl 0)
    · have hpos := hgrid'.magnitude_pos
      rw [value_of_finite hy, hx, hy]
      cases s' with
      | negative => exact iff_of_false (by simp [UnpackedFloat.compare]) (by rw [factor]; linarith)
      | positive => exact iff_of_true rfl (by rw [factor]; linarith)
  · have hpos := hgrid.magnitude_pos
    rw [value_of_finite hx]
    rcases finite_cases hy with ⟨s', hy⟩ | ⟨s', m', e', hgrid', hy⟩
    · rw [value_of_zero hy, hx, hy]
      cases s with
      | negative => exact iff_of_true rfl (by rw [factor]; linarith)
      | positive => exact iff_of_false (by simp [UnpackedFloat.compare]) (by rw [factor]; linarith)
    · have hpos' := hgrid'.magnitude_pos
      rw [value_of_finite hy, hx, hy]
      cases s with
      | negative =>
        cases s' with
        | negative =>
          -- of negative numbers the one with the greater magnitude is the less
          rw [factor, neg_one_mul, neg_one_mul, neg_lt_neg_iff, ← hgrid'.compare_eq_lt_iff hgrid]
          rw [UnpackedFloat.compare, Option.some.injEq, Ordering.swap_then, Int.compare_swap, Nat.compare_swap]
        | positive => exact iff_of_true rfl (by rw [factor, factor]; linarith)
      | positive =>
        cases s' with
        | negative => exact iff_of_false (by simp [UnpackedFloat.compare]) (by rw [factor, factor]; linarith)
        | positive =>
          rw [factor, one_mul, one_mul, ← hgrid.compare_eq_lt_iff hgrid', UnpackedFloat.compare, Option.some.injEq]

/-! ### The extended line -/

/-- The rationals with both infinities. -/
abbrev Extended := WithBot (WithTop ℚ)

/-- What a double stands for; a NaN stands for nothing. -/
def extended? (x : Float) : Option Extended :=
  match x.toModel.unpack with
  | .notANumber => none
  | .infinity .positive => some ⊤
  | .infinity .negative => some ⊥
  | _ => some ((value x : WithTop ℚ) : Extended)

theorem extended?_of_isFinite (h : x.isFinite = true) : extended? x = some ((value x : WithTop ℚ) : Extended) := by
  rcases finite_cases h with ⟨s, hx⟩ | ⟨s, m, e, hgrid, hx⟩ <;> rw [extended?, hx]

theorem coe_lt_top (q : ℚ) : ((q : WithTop ℚ) : Extended) < ⊤ := WithBot.coe_lt_coe.2 (WithTop.coe_lt_top q)

theorem extended?_of_isNaN (h : x.isNaN = true) : extended? x = none := by
  rw [extended?, isNaN_iff.1 h]

/-- Of an infinity and another double the sign decides. -/
theorem lt_iff_extended_of_infinity {s : Sign} (hx : x.toModel.unpack = .infinity s) :
    (x < y ↔ ∃ p ∈ extended? x, ∃ q ∈ extended? y, p < q) ∧ (y < x ↔ ∃ p ∈ extended? y, ∃ q ∈ extended? x, p < q) := by
  rw [lt_iff_unpack, lt_iff_unpack]
  rcases isFinite_trichotomy y with hy | hy | hy
  · rw [extended?_of_isNaN hy, isNaN_iff.1 hy, hx]
    cases s <;> simp [UnpackedFloat.compare]
  · obtain ⟨s', hy⟩ := isInf_iff.1 hy
    rw [extended?, extended?, hx, hy]
    cases s <;> cases s' <;> simp [UnpackedFloat.compare] <;> decide
  · rw [extended?_of_isFinite hy, extended?, hx]
    rcases finite_cases hy with ⟨s', hy⟩ | ⟨s', m', e', hgrid', hy⟩
    all_goals
      rw [hy]
      cases s <;> simp [UnpackedFloat.compare, coe_lt_top]

theorem lt_iff_extended : x < y ↔ ∃ p ∈ extended? x, ∃ q ∈ extended? y, p < q := by
  rcases isFinite_trichotomy x with hx | hx | hx
  · rw [extended?_of_isNaN hx]
    exact iff_of_false (not_lt_of_isNaN hx y) (by simp)
  · obtain ⟨s, hx⟩ := isInf_iff.1 hx
    exact (lt_iff_extended_of_infinity hx).1
  rcases isFinite_trichotomy y with hy | hy | hy
  · rw [extended?_of_isNaN hy, lt_iff_unpack, isNaN_iff.1 hy]
    cases x.toModel.unpack <;> simp [UnpackedFloat.compare]
  · obtain ⟨s, hy⟩ := isInf_iff.1 hy
    exact (lt_iff_extended_of_infinity hy).2
  · rw [extended?_of_isFinite hx, extended?_of_isFinite hy, lt_iff_value hx hy]
    simp

theorem isNaN_eq_isNone (x : Float) : x.isNaN = (extended? x).isNone := by
  rcases isFinite_trichotomy x with hx | hx | hx
  · rw [extended?_of_isNaN hx, hx]
    rfl
  · obtain ⟨s, hs⟩ := isInf_iff.1 hx
    rw [isNaN_of_isInf hx, extended?, hs]
    cases s <;> rfl
  · rw [extended?_of_isFinite hx, isNaN_of_isFinite hx]
    rfl

theorem compare_swap (u v : UnpackedFloat) : v.compare u = (u.compare v).map .swap := by
  cases u with
  | notANumber => cases v <;> rfl
  | infinity s =>
    cases v with
    | infinity s' => cases s <;> cases s' <;> rfl
    | _ => cases s <;> rfl
  | zero s =>
    cases v with
    | infinity s' | finite s' => cases s' <;> rfl
    | _ => rfl
  | finite s m e hm =>
    cases v with
    | notANumber => rfl
    | zero s' => cases s <;> rfl
    | infinity s' => cases s' <;> rfl
    | finite s' m' e' hm' =>
      cases s <;> cases s' <;> simp [UnpackedFloat.compare, Ordering.swap_then, Int.compare_swap, Nat.compare_swap]

theorem compare_eq_none_iff (u v : UnpackedFloat) : u.compare v = none ↔ u = .notANumber ∨ v = .notANumber := by
  cases u with
  | notANumber => simp [UnpackedFloat.compare]
  | infinity s => cases s <;> cases v <;> simp [UnpackedFloat.compare]
  | zero s =>
    cases v with
    | infinity s' | finite s' => cases s' <;> simp [UnpackedFloat.compare]
    | _ => simp [UnpackedFloat.compare]
  | finite s m e hm =>
    cases v with
    | infinity s' | finite s' => cases s <;> cases s' <;> simp [UnpackedFloat.compare]
    | _ => cases s <;> simp [UnpackedFloat.compare]

theorem le_iff_not_lt : x ≤ y ↔ x.isNaN = false ∧ y.isNaN = false ∧ ¬ y < x := by
  have hle : x ≤ y ↔ x.toModel.unpack.le y.toModel.unpack = true := decide_eq_true_iff
  have hnone := compare_eq_none_iff x.toModel.unpack y.toModel.unpack
  rw [hle, lt_iff_unpack, Bool.eq_false_iff, Bool.eq_false_iff, ne_eq, ne_eq, isNaN_iff, isNaN_iff, UnpackedFloat.le,
    compare_swap x.toModel.unpack, ← and_assoc, ← not_or, ← hnone]
  cases x.toModel.unpack.compare y.toModel.unpack with
  | none => simp
  | some o => cases o <;> simp

theorem le_iff_extended : x ≤ y ↔ ∃ p ∈ extended? x, ∃ q ∈ extended? y, p ≤ q := by
  rw [le_iff_not_lt, lt_iff_extended, isNaN_eq_isNone, isNaN_eq_isNone]
  cases extended? x with
  | none => simp
  | some p => cases extended? y <;> simp

end Double

/-! ### Scalars -/

open Double (value)

/-- The number that a double stands for is that of its exact form. -/
theorem Dyadic.value_eq {x : Float} {d : Dyadic} (h : Dyadic.ofFloat? x = some d) :
    value x = (d.signedNum : ℚ) / d.den := by
  unfold Dyadic.ofFloat? at h
  split at h
  · rename_i s hx
    obtain rfl := Option.some.inj h
    rw [Double.value_of_zero hx]
    cases s <;> simp [Dyadic.signedNum, Dyadic.num]
  · rename_i s m e hm hx
    obtain rfl := Option.some.inj h
    rw [Double.value_of_finite hx, ← Decimal.num_div_den ⟨s == .negative, m, e⟩, ← mul_div_assoc]
    cases s <;> simp [Dyadic.signedNum, Double.factor]
  · exact absurd h (by simp)
  · exact absurd h (by simp)

theorem Dyadic.floor_eq {x : Float} {d : Dyadic} (h : Dyadic.ofFloat? x = some d) : d.floor = ⌊value x⌋ := by
  rw [Dyadic.value_eq h, Rat.floor_intCast_div_natCast]
  rfl

theorem Dyadic.floor_lt_iff {x : Float} {d : Dyadic} (h : Dyadic.ofFloat? x = some d) (n : ℤ) :
    d.floor < n ↔ value x < n := by
  rw [Dyadic.floor_eq h, Int.floor_lt]

namespace Scalar

open Double (Extended)

variable {s t : Scalar} {x : Float}

/-- What a scalar stands for. -/
def extended? : Scalar → Option Extended
  | int n => some (((n : ℚ) : WithTop ℚ) : Extended)
  | double x => Double.extended? x

/-- The number `t` is not less than `s`. -/
def AtMost (s t : Scalar) : Prop := ∃ p ∈ s.extended?, ∃ q ∈ t.extended?, p ≤ q

/-- An integer is compared with the floor of a finite double, and with an infinity by its sign. -/
theorem exceeds_iff : s.exceeds x = true ↔ ∃ p ∈ Double.extended? x, ∃ q ∈ s.extended?, p < q := by
  cases s with
  | double y => exact decide_eq_true_iff.trans Double.lt_iff_extended
  | int n =>
    rw [exceeds]
    rcases Double.isFinite_trichotomy x with hx | hx | hx
    · rw [Double.ofFloat?_of_isNaN hx, Double.extended?_of_isNaN hx]
      exact iff_of_false (by simpa using Double.not_lt_of_isNaN hx 0) (by simp)
    · rw [Double.ofFloat?_of_isInf hx]
      obtain ⟨s, hx⟩ := Double.isInf_iff.1 hx
      refine decide_eq_true_iff.trans (Double.lt_iff_extended.trans ?_)
      rw [Double.extended?_of_isFinite (x := 0) rfl, Double.extended?, hx]
      cases s <;> simp [extended?]
    · obtain ⟨d, hd⟩ := Double.exists_ofFloat? hx
      rw [hd, Double.extended?_of_isFinite hx]
      refine decide_eq_true_iff.trans ((Dyadic.floor_lt_iff hd n).trans ?_)
      simp [extended?]

theorem AtMost.exceeds (h : s.AtMost t) (hx : s.exceeds x = true) : t.exceeds x = true := by
  obtain ⟨p, hp, q, hq, hlt⟩ := exceeds_iff.1 hx
  obtain ⟨q', hq', r, hr, hle⟩ := h
  obtain rfl := Option.mem_unique hq hq'
  exact exceeds_iff.2 ⟨p, hp, r, hr, hlt.trans_le hle⟩

end Scalar

/-- Numbers that are near are near with every greater tolerance. -/
theorem Complex.near_of_atMost {z w : Complex} {s t : Scalar} (h : s.AtMost t) (hnear : z.near w s = true) :
    z.near w t = true := by
  rw [near, Bool.and_eq_true] at hnear ⊢
  exact ⟨h.exceeds hnear.1, h.exceeds hnear.2⟩

end Phasor
