import Mathlib
import Phasor.Decimal.Rounding

/-!
# Rounding to the grid of the doubles

A positive number `m / d * 2^e` is rounded in two steps: the quotient is cut to the exponent of its binade, a half
going to the even mantissa (`cut`, `roundedMantissa_cut`), and a mantissa that grows to `2^53` by that is halved
(`roundWithAccuracy_cut`, `round_eq`). A number on the grid stays as it is (`roundWithAccuracy_of_onGrid`).
-/

namespace Phasor

namespace Decimal

variable {m d n : Nat}

theorem roundHalfEven_le (h : 2 * m < (2 * n + 1) * d) : roundHalfEven m d ≤ n := by
  have hd : 0 < d := Nat.pos_of_ne_zero fun hd => by simp [hd] at h
  have hdivision := Nat.div_add_mod m d
  have hq : m / d ≤ n := by
    by_contra hlt
    have hmul : d * (n + 1) ≤ d * (m / d) := Nat.mul_le_mul_left d (by omega)
    rw [Nat.mul_add, Nat.mul_one, Nat.mul_comm d n] at hmul
    rw [Nat.add_mul, Nat.mul_assoc, Nat.one_mul] at h
    omega
  unfold roundHalfEven
  dsimp only
  split
  · exact hq
  all_goals
    rename_i hcompare
    rcases Nat.lt_or_eq_of_le hq with hlt | heq
    · omega
    · -- the quotient is `n` itself, so the rest is below a half
      rw [Nat.add_mul, Nat.mul_assoc, Nat.one_mul, ← heq, Nat.mul_comm (m / d)] at h
      first
        | rw [Nat.compare_eq_eq] at hcompare; omega
        | rw [Nat.compare_eq_gt] at hcompare; omega

theorem le_roundHalfEven (hd : 0 < d) (h : n * d ≤ m) : n ≤ roundHalfEven m d := by
  have hq : n ≤ m / d := (Nat.le_div_iff_mul_le hd).2 h
  unfold roundHalfEven
  dsimp only
  split <;> omega

theorem roundHalfEven_cases (m d : Nat) : roundHalfEven m d = m / d ∨ roundHalfEven m d = m / d + 1 := by
  unfold roundHalfEven
  dsimp only
  split
  · exact .inl rfl
  · rcases Nat.mod_two_eq_zero_or_one (m / d) with heven | hodd
    · exact .inl (by rw [heven, Nat.add_zero])
    · exact .inr (by rw [hodd])
  · exact .inr rfl

end Decimal

namespace Double

open Float.Model Float.Model.UnpackedFloat
open Decimal (roundHalfEven roundHalfEven_le le_roundHalfEven roundHalfEven_of_dvd)

/-! ### Cutting a mantissa -/

/-- The quotient `m / d` with the bit after its last one, and with what is below that bit. -/
def cut (m d : Nat) : ExtendedMantissa := ⟨m / d, decide (d ≤ 2 * (m % d)), decide (2 * (m % d) % d ≠ 0)⟩

theorem cut_one (m : Nat) : cut m 1 = ⟨m, false, false⟩ := by
  simp [cut, Nat.mod_one]

theorem shiftRightOne_cut (m : Nat) {d : Nat} (hd : 0 < d) : (cut m d).shiftRightOne = cut m (d * 2) := by
  have hr : m % d < d := Nat.mod_lt m hd
  have hmod : m % (d * 2) = m % d + d * (m / d % 2) := Nat.mod_mul
  have hquotient : m / d / 2 = m / (d * 2) := Nat.div_div_eq_div_mul m d 2
  rw [cut, cut, ExtendedMantissa.shiftRightOne, hquotient, hmod]
  generalize m % d = r at hr
  -- the last bit cut off is the round bit, and what was cut off before it is `r`
  have hbit : m / d % 2 = 0 ∨ m / d % 2 = 1 := Nat.mod_two_eq_zero_or_one _
  have hrest : 2 * (r + d * (m / d % 2)) % (d * 2) = 2 * r := by
    rw [Nat.mul_add, ← Nat.mul_assoc, Nat.mul_comm 2 d, Nat.add_mul_mod_self_left]
    exact Nat.mod_eq_of_lt (by omega)
  have hsticky : (decide (d ≤ 2 * r) || decide (2 * r % d ≠ 0)) = decide (2 * r ≠ 0) := by
    rw [← Bool.decide_or]
    refine decide_eq_decide.2 ⟨fun h => ?_, fun h => ?_⟩
    · rintro hzero
      rw [hzero, Nat.zero_mod] at h
      omega
    · refine or_iff_not_imp_left.2 fun hlt => ?_
      rwa [Nat.mod_eq_of_lt (by omega)]
  have hround : (m / d % 2 != 0) = decide (d * 2 ≤ 2 * (r + d * (m / d % 2))) := by
    rcases hbit with hbit | hbit
    · rw [hbit, Nat.mul_zero, Nat.add_zero, decide_eq_false (by omega)]
      rfl
    · rw [hbit, Nat.mul_one, decide_eq_true (by omega)]
      rfl
  rw [hrest]
  dsimp only
  rw [hsticky, hround]

theorem shiftRight_cut (m : Nat) {d : Nat} (hd : 0 < d) (k : Nat) : cut m d >>> k = cut m (d * 2 ^ k) := by
  induction k with
  | zero => rw [Nat.pow_zero, Nat.mul_one]; rfl
  | succ k ih =>
    show ExtendedMantissa.shiftRightOne (cut m d >>> k) = _
    rw [ih, shiftRightOne_cut m (Nat.mul_pos hd (Nat.two_pow_pos k)), Nat.pow_succ, Nat.mul_assoc]

theorem roundedMantissa_cut (m : Nat) {d : Nat} (hd : 0 < d) : (cut m d).roundedMantissa = roundHalfEven m d := by
  rw [cut, ExtendedMantissa.roundedMantissa, roundHalfEven]
  have hr : m % d < d := Nat.mod_lt m hd
  dsimp only
  split
  · rename_i hlt
    rw [Nat.compare_eq_lt] at hlt
    rw [decide_eq_false (by omega)]
    cases decide (2 * (m % d) % d ≠ 0) <;> rfl
  · rename_i heq
    rw [Nat.compare_eq_eq] at heq
    rw [heq, Nat.mod_self, decide_eq_true (Nat.le_refl d)]
    rfl
  · rename_i hgt
    rw [Nat.compare_eq_gt] at hgt
    have hrest : 2 * (m % d) % d ≠ 0 := by
      rw [Nat.mod_eq_sub_mod (by omega), Nat.mod_eq_of_lt (by omega)]
      omega
    rw [decide_eq_true (by omega), decide_eq_true hrest]
    rfl

/-- A quotient and what its remainder says about half a step are a cut. -/
theorem ofMantissaAndAccuracy_eq_cut (m : Nat) {d : Nat} (hd : 0 < d) :
    .ofMantissaAndAccuracy (m / d) (accuracyOfFraction (m % d) d) = cut m d := by
  have hr : m % d < d := Nat.mod_lt m hd
  unfold accuracyOfFraction cut
  split
  · rename_i hzero
    simp [hzero, ExtendedMantissa.ofMantissaAndAccuracy, Nat.ne_of_gt hd]
  · rename_i hzero
    rcases Nat.lt_trichotomy (2 * (m % d)) d with hlt | heq | hgt
    · rw [Nat.compare_eq_lt.2 hlt, decide_eq_false (by omega),
        decide_eq_true (by rw [Nat.mod_eq_of_lt hlt]; omega)]
      rfl
    · rw [Nat.compare_eq_eq.2 heq, heq, Nat.mod_self, decide_eq_true (Nat.le_refl d)]
      rfl
    · have hrest : 2 * (m % d) % d ≠ 0 := by
        rw [Nat.mod_eq_sub_mod (by omega), Nat.mod_eq_of_lt (by omega)]
        omega
      rw [Nat.compare_eq_gt.2 hgt, decide_eq_true (by omega), decide_eq_true hrest]
      rfl

/-! ### The binade -/

/-- The exponent of the grid on which `m * 2^e` lies, or to which it is rounded. -/
def gridExponent (m : Nat) (e : Int) : Int := max (m.log2 + e - 52) (-1074)

theorem targetExponent_eq (m : Nat) (e : Int) :
    Format.binary64.targetExponent (totalExponent m e) = gridExponent m e := by
  have hbits : Format.binary64.mantissaBits = 53 := rfl
  have hmin : Format.binary64.minExponent = -1074 := rfl
  rw [Format.targetExponent, totalExponent, gridExponent, hbits, hmin]
  congr 1
  omega

theorem shiftToTargetExponent_cut (m : Nat) {d : Nat} (hd : 0 < d) (e : Int) :
    shiftToTargetExponent .binary64 (m / d) e (accuracyOfFraction (m % d) d) =
      (cut m (d * 2 ^ (gridExponent (m / d) e - e).toNat), e + (gridExponent (m / d) e - e).toNat) := by
  rw [shiftToTargetExponent, targetExponent_eq, shiftToExponent, ofMantissaAndAccuracy_eq_cut m hd,
    shiftRight_cut m hd]

theorem shiftToTargetExponent_exact (m : Nat) (e : Int) :
    shiftToTargetExponent .binary64 m e .exact =
      (cut m (2 ^ (gridExponent m e - e).toNat), e + (gridExponent m e - e).toNat) := by
  have h := shiftToTargetExponent_cut m Nat.one_pos e
  rwa [Nat.div_one, Nat.mod_one, Nat.one_mul] at h

theorem log2_le_of_lt {q : Nat} (h : q < 2 ^ 53) : q.log2 ≤ 52 := by
  by_cases hq : q = 0
  · rw [hq]
    decide
  · exact Nat.le_of_lt_succ ((Nat.log2_lt hq).2 h)

theorem gridExponent_le {q : Nat} {t : Int} (h : q < 2 ^ 53) (ht : -1074 ≤ t) : gridExponent q t ≤ t := by
  have hlog := log2_le_of_lt h
  rw [gridExponent]
  omega

theorem roundHalfEven_le_carry (m : Nat) {d : Nat} (hd : 0 < d) (e : Int) :
    roundHalfEven m (d * 2 ^ (gridExponent (m / d) e - e).toNat) ≤ 2 ^ 53 := by
  have hlog : (m / d).log2 + 1 ≤ 53 + (gridExponent (m / d) e - e).toNat := by
    rw [gridExponent]
    omega
  have hquotient : m / d < 2 ^ 53 * 2 ^ (gridExponent (m / d) e - e).toNat := by
    rw [← Nat.pow_add]
    exact Nat.lt_of_lt_of_le Nat.lt_log2_self (Nat.pow_le_pow_right (by decide) hlog)
  have hm : m < 2 ^ 53 * (d * 2 ^ (gridExponent (m / d) e - e).toNat) := by
    rw [Nat.div_lt_iff_lt_mul hd] at hquotient
    rwa [Nat.mul_comm d, ← Nat.mul_assoc]
  refine roundHalfEven_le ?_
  rw [Nat.add_mul, Nat.mul_assoc]
  omega

theorem shiftToTargetExponent_of_lt {q : Nat} {t : Int} (h : q < 2 ^ 53) (ht : -1074 ≤ t) :
    shiftToTargetExponent .binary64 q t .exact = (⟨q, false, false⟩, t) := by
  have hgrid := gridExponent_le h ht
  have hzero : (gridExponent q t - t).toNat = 0 := by omega
  rw [shiftToTargetExponent_exact, hzero, Nat.pow_zero, cut_one]
  exact Prod.ext rfl (Int.add_zero t)

theorem shiftToTargetExponent_carry {t : Int} (ht : -1074 ≤ t) :
    shiftToTargetExponent .binary64 (2 ^ 53) t .exact = (⟨2 ^ 52, false, false⟩, t + 1) := by
  have hgrid : gridExponent (2 ^ 53) t = t + 1 := by
    rw [gridExponent, Nat.log2_two_pow]
    omega
  have hone : (t + 1 - t).toNat = 1 := by omega
  rw [shiftToTargetExponent_exact, hgrid, hone]
  rfl

/-- The mantissa `q` at the exponent `t`, after a carry out of its 53 bits. -/
def ofRounded (s : Sign) (q : Nat) (t : Int) : UnpackedFloat :=
  if h : q = 0 then .zero s
  else if q < 2 ^ 53 then .finite s q t (Nat.pos_of_ne_zero h)
  else .finite s (2 ^ 52) (t + 1) (by decide)

theorem carry_eq (s : Sign) {q : Nat} {t : Int} (hq : q ≤ 2 ^ 53) (ht : -1074 ≤ t) :
    (if h : (shiftToTargetExponent .binary64 q t .exact).1.mantissa = 0 then .zero s
      else .finite s (shiftToTargetExponent .binary64 q t .exact).1.mantissa
        (shiftToTargetExponent .binary64 q t .exact).2 (Nat.pos_of_ne_zero h)) = ofRounded s q t := by
  rw [ofRounded]
  rcases Nat.lt_or_eq_of_le hq with hlt | rfl
  · simp only [shiftToTargetExponent_of_lt hlt ht, if_pos hlt]
  · simp only [shiftToTargetExponent_carry ht]
    rfl

theorem roundWithAccuracy_cut (s : Sign) (m : Nat) {d : Nat} (hd : 0 < d) {e : Int}
    (he : e ≤ gridExponent (m / d) e) :
    roundWithAccuracy .binary64 s (m / d) e (accuracyOfFraction (m % d) d) =
      ofRounded s (roundHalfEven m (d * 2 ^ (gridExponent (m / d) e - e).toNat)) (gridExponent (m / d) e) := by
  have hexponent : e + (gridExponent (m / d) e - e).toNat = gridExponent (m / d) e := by omega
  unfold roundWithAccuracy
  simp only [shiftToTargetExponent_cut m hd e, hexponent, roundedMantissa_cut m (Nat.mul_pos hd (Nat.two_pow_pos _))]
  exact carry_eq s (roundHalfEven_le_carry m hd e) (Int.le_max_right _ _)

theorem roundWithAccuracy_eq (s : Sign) {m : Nat} {e : Int} (he : e ≤ gridExponent m e) :
    roundWithAccuracy .binary64 s m e .exact =
      ofRounded s (roundHalfEven m (2 ^ (gridExponent m e - e).toNat)) (gridExponent m e) := by
  have h := roundWithAccuracy_cut s m Nat.one_pos (e := e)
  rw [Nat.div_one, Nat.mod_one, Nat.one_mul] at h
  exact h he

theorem log2_mul_two_pow {m : Nat} (hm : 0 < m) (k : Nat) : (m * 2 ^ k).log2 = m.log2 + k := by
  have hpos : 0 < 2 ^ k := Nat.two_pow_pos k
  refine (Nat.log2_eq_iff (Nat.ne_of_gt (Nat.mul_pos hm hpos))).2 ⟨?_, ?_⟩
  · rw [Nat.pow_add]
    exact Nat.mul_le_mul_right _ (Nat.log2_self_le (Nat.ne_of_gt hm))
  · rw [Nat.add_right_comm, Nat.pow_add]
    exact Nat.mul_lt_mul_of_pos_right Nat.lt_log2_self hpos

/-- The grid depends on the number only, not on how it is written. -/
theorem gridExponent_mul_two_pow {m : Nat} (hm : 0 < m) (e : Int) (k : Nat) :
    gridExponent (m * 2 ^ k) (e - k) = gridExponent m e := by
  rw [gridExponent, gridExponent, log2_mul_two_pow hm]
  congr 1
  omega

theorem round_eq (s : Sign) {m : Nat} (hm : 0 < m) (e : Int) :
    UnpackedFloat.round .binary64 s m e = ofRounded s (roundHalfEven (m * 2 ^ (e - gridExponent m e).toNat)
      (2 ^ (gridExponent m e - e).toNat)) (gridExponent m e) := by
  have hgrid := gridExponent_mul_two_pow hm e (e - gridExponent m e).toNat
  have hshift : gridExponent m e - (e - (e - gridExponent m e).toNat) = max (gridExponent m e - e) 0 := by omega
  unfold UnpackedFloat.round decreaseExponent
  simp only [targetExponent_eq, Nat.shiftLeft_eq]
  rw [roundWithAccuracy_eq s (by rw [hgrid]; omega), hgrid, hshift]
  congr 3
  omega

/-! ### Numbers on the grid -/

/-- A positive double `m * 2^e`, written with its own exponent. -/
structure OnGrid (m : Nat) (e : Int) : Prop where
  pos : 0 < m
  lt : m < 2 ^ 53
  grid : gridExponent m e = e
  le : e ≤ 971

theorem OnGrid.ge {m : Nat} {e : Int} (h : OnGrid m e) : -1074 ≤ e := by
  rw [← h.grid]
  exact Int.le_max_right _ _

theorem ofRounded_of_onGrid (s : Sign) {m : Nat} {e : Int} (h : OnGrid m e) :
    ofRounded s m e = .finite s m e h.pos := by
  rw [ofRounded, dif_neg (Nat.ne_of_gt h.pos), if_pos h.lt]

theorem roundWithAccuracy_of_onGrid (s : Sign) {m : Nat} {e : Int} (h : OnGrid m e) (k : Nat) :
    roundWithAccuracy .binary64 s (m * 2 ^ k) (e - k) .exact = .finite s m e h.pos := by
  have hgrid : gridExponent (m * 2 ^ k) (e - k) = e := (gridExponent_mul_two_pow h.pos e k).trans h.grid
  have hshift : (e - (e - k)).toNat = k := by omega
  have hpos : 0 < 2 ^ k := Nat.two_pow_pos k
  rw [roundWithAccuracy_eq s (by omega), hgrid, hshift, roundHalfEven_of_dvd hpos (Nat.dvd_mul_left _ _),
    Nat.mul_div_cancel _ hpos]
  exact ofRounded_of_onGrid s h

/-- Rounding finds a number on the grid however it is written. -/
theorem round_of_onGrid (s : Sign) {m n : Nat} {e d : Int} (h : OnGrid m e) (hn : 0 < n)
    (hsame : n * 2 ^ (d - e).toNat = m * 2 ^ (e - d).toNat) :
    UnpackedFloat.round .binary64 s n d = .finite s m e h.pos := by
  have hgrid : gridExponent n d = e := by
    have hleft := gridExponent_mul_two_pow hn d (d - e).toNat
    have hright := gridExponent_mul_two_pow h.pos e (e - d).toNat
    rw [show d - ((d - e).toNat : Int) = e - ((e - d).toNat : Int) by omega, hsame] at hleft
    rw [← hleft, hright, h.grid]
  have hpos : 0 < 2 ^ (e - d).toNat := Nat.two_pow_pos _
  rw [round_eq s hn, hgrid, hsame, roundHalfEven_of_dvd hpos (Nat.dvd_mul_left _ _), Nat.mul_div_cancel _ hpos]
  exact ofRounded_of_onGrid s h

/-- A mantissa that fills the 53 bits is on the grid with every exponent of a double. -/
theorem onGrid_of_log2 {m : Nat} {e : Int} (h : m.log2 = 52) (he : -1074 ≤ e) (he' : e ≤ 971) : OnGrid m e := by
  have hpos : 0 < m := Nat.pos_of_ne_zero fun hzero => by
    rw [hzero] at h
    exact absurd h (by decide)
  have hlt := @Nat.lt_log2_self m
  rw [h] at hlt
  refine ⟨hpos, hlt, ?_, he'⟩
  rw [gridExponent, h]
  omega

theorem log2_mul_fill {n : Nat} (hn : 0 < n) (h : n < 2 ^ 53) : (n * 2 ^ (52 - n.log2)).log2 = 52 := by
  have hlog := log2_le_of_lt h
  rw [log2_mul_two_pow hn]
  omega

/-- A number below `2^53` is on the grid once its mantissa fills the 53 bits. -/
theorem onGrid_of_lt {n : Nat} (hn : 0 < n) (h : n < 2 ^ 53) :
    OnGrid (n * 2 ^ (52 - n.log2)) (-(52 - n.log2 : Nat)) :=
  onGrid_of_log2 (log2_mul_fill hn h) (by omega) (by omega)

/-! ### Overflow -/

/-- The exponent does not exceed that of the greatest double. -/
def Within : UnpackedFloat → Prop
  | .zero _ => True
  | .finite _ _ e _ => e ≤ 971
  | _ => False

theorem within_ofRounded (s : Sign) {q : Nat} {t : Int} (h : t ≤ 970 ∨ t = 971 ∧ q < 2 ^ 53) :
    Within (ofRounded s q t) := by
  unfold ofRounded
  split
  · trivial
  split
  · show t ≤ 971
    omega
  · show t + 1 ≤ 971
    omega

end Double
end Phasor
