import Phasor.Complex.Power
import Phasor.Proofs.OperationErrors
import Phasor.Proofs.SquareRoots
import Phasor.Proofs.Tolerances

/-!
# Lengths and angles

What is documented of the elementary functions, in terms of the numbers that doubles stand for. A length is not below
the parts of a number, so a square root is never asked for a number below zero (`Complex.sqrt_eq`), and angles are
never infinite, so roots have a cosine and a sine to take (`Complex.ofPolar_eq`).
-/

namespace Phasor

namespace Double

open Float.Model Float.Model.UnpackedFloat

variable {x y r : Float} {q : ℚ}

/-! ### Magnitudes below a bound -/

theorem isFinite_abs (h : x.isFinite = true) : x.abs.isFinite = true ∧ value x.abs = |value x| := by
  rcases finite_cases h with ⟨s, hx⟩ | ⟨s, m, e, hgrid, hx⟩
  · have habs := unpack_abs_of_zero hx
    refine ⟨isFinite_iff.2 (.inl ⟨_, habs⟩), ?_⟩
    rw [value_of_zero habs, value_of_zero hx, abs_zero]
  · have habs := unpack_abs hx
    refine ⟨isFinite_iff.2 (.inr ⟨_, _, _, _, habs⟩), ?_⟩
    rw [value_of_finite habs, abs_value_of_finite hx, factor, one_mul]

/-- A double that is not below the magnitude of a finite one is infinite, or finite and not below it. -/
theorem cases_of_abs_le (hx : x.isFinite = true) (h : x.abs ≤ r) :
    r.toModel.unpack = .infinity .positive ∨ r.isFinite = true ∧ |value x| ≤ value r := by
  obtain ⟨habs, hvalue⟩ := isFinite_abs hx
  rw [le_iff_extended, extended?_of_isFinite habs, hvalue] at h
  obtain ⟨p, hp, q, hq, hle⟩ := h
  obtain rfl := Option.some.inj hp
  rcases isFinite_trichotomy r with hr | hr | hr
  · rw [extended?_of_isNaN hr] at hq
    exact nomatch hq
  · obtain ⟨s, hs⟩ := isInf_iff.1 hr
    cases s with
    | positive => exact .inl hs
    | negative =>
      rw [extended?, hs] at hq
      obtain rfl := Option.some.inj hq
      exact absurd hle (by simp)
  · rw [extended?_of_isFinite hr] at hq
    obtain rfl := Option.some.inj hq
    exact .inr ⟨hr, by exact_mod_cast hle⟩

theorem isFinite_of_abs_le (hr : r.isFinite = true) (h : x.abs ≤ r) : x.isFinite = true ∧ |value x| ≤ value r := by
  have hx : x.isFinite = true := by
    obtain ⟨p, hp, q, hq, hle⟩ := le_iff_extended.1 h
    rw [extended?_of_isFinite hr] at hq
    obtain rfl := Option.some.inj hq
    rcases isFinite_trichotomy x with hx | hx | hx
    · rw [extended?_of_isNaN (isNaN_abs hx)] at hp
      exact nomatch hp
    · -- the magnitude of an infinity is above every number
      obtain ⟨s, hs⟩ := isInf_iff.1 hx
      have habs : x.abs.toModel.unpack = .infinity .positive := by
        show (Float.Model.pack x.toModel.unpack.abs).unpack = _
        rw [hs]
        cases s <;> rfl
      rw [extended?, habs] at hp
      obtain rfl := Option.some.inj hp
      exact absurd hle (coe_lt_top _).not_ge
    · exact hx
  obtain ⟨habs, hvalue⟩ := isFinite_abs hx
  rcases cases_of_abs_le hx h with hinf | ⟨-, hle⟩
  · rw [isFinite_iff, hinf] at hr
    simp at hr
  · exact ⟨hx, hle⟩

/-- A double that is not above a number is not above what it is rounded to. -/
theorem RoundsTo.abs_value_le (h : RoundsTo r q) (hr : r.isFinite = true) (hx : x.isFinite = true)
    (hle : |value x| ≤ q) : |value x| ≤ value r := by
  have hq : 0 ≤ q := (abs_nonneg _).trans hle
  obtain ⟨s, -, hvalue⟩ := h.value_eq hr
  have hmagnitude := abs_value_le_magnitude s hx hle
  rw [← abs_of_nonneg (h.nonneg hr hq), hvalue, abs_factor_mul s (magnitude_nonneg _), abs_of_nonneg hq]
  exact hmagnitude

theorem RoundsTo.abs_le (h : RoundsTo r q) (hx : x.isFinite = true) (hle : |value x| ≤ q) : x.abs ≤ r := by
  obtain ⟨habs, hvalue⟩ := isFinite_abs hx
  rw [le_iff_extended, extended?_of_isFinite habs, hvalue]
  refine ⟨_, rfl, ?_⟩
  rcases lt_or_ge q limit with hlt | hge
  · have hr := h.isFinite_iff.2 (by rwa [abs_of_nonneg ((abs_nonneg _).trans hle)])
    exact ⟨_, extended?_of_isFinite hr, by exact_mod_cast h.abs_value_le hr hx hle⟩
  · refine ⟨⊤, ?_, le_top⟩
    rw [extended?, h.unpack_of_le hge]
    rfl

/-! ### Numbers that are not below zero -/

theorem lt_asymm (h : x < y) : ¬ y < x := by
  rw [lt_iff_extended] at h ⊢
  obtain ⟨p, hp, q, hq, hlt⟩ := h
  rintro ⟨q', hq', p', hp', hlt'⟩
  obtain rfl := Option.some.inj (hp.symm.trans hp')
  obtain rfl := Option.some.inj (hq.symm.trans hq')
  exact hlt.asymm hlt'

theorem not_lt_zero_of_infinity (h : x.toModel.unpack = .infinity .positive) : ¬ x < 0 := by
  have hzero : (0 : Float).toModel.unpack = .zero .positive := rfl
  rw [lt_iff_unpack, h, hzero]
  simp [UnpackedFloat.compare]

theorem not_lt_zero_iff (hx : x.isFinite = true) : ¬ x < 0 ↔ 0 ≤ value x := by
  rw [lt_iff_value hx (by rfl), value_zero, not_lt]

theorem RoundsTo.not_lt_zero (h : RoundsTo x q) (hq : 0 ≤ q) : ¬ x < 0 := by
  rcases lt_or_ge q limit with hlt | hge
  · have hx := h.isFinite_iff.2 (by rwa [abs_of_nonneg hq])
    exact (not_lt_zero_iff hx).2 (h.nonneg hx hq)
  · exact not_lt_zero_of_infinity (h.unpack_of_le hge)

theorem isNaN_of_toModel {u : UnpackedFloat} (h : x.toModel = .pack u) (hu : u = .notANumber) : x.isNaN = true := by
  rw [Float.isNaN, h, hu]
  rfl

theorem isNaN_add (h : r.isNaN = true) (x : Float) : (r + x).isNaN = true := by
  refine isNaN_of_toModel (u := UnpackedFloat.add .binary64 r.toModel.unpack x.toModel.unpack) rfl ?_
  rw [isNaN_iff.1 h]
  rfl

theorem isNaN_add_of_right (h : r.isNaN = true) (x : Float) : (x + r).isNaN = true := by
  refine isNaN_of_toModel (u := UnpackedFloat.add .binary64 x.toModel.unpack r.toModel.unpack) rfl ?_
  rw [isNaN_iff.1 h]
  cases x.toModel.unpack <;> rfl

theorem isNaN_div (h : r.isNaN = true) (x : Float) : (r / x).isNaN = true := by
  refine isNaN_of_toModel (u := UnpackedFloat.div .binary64 r.toModel.unpack x.toModel.unpack) rfl ?_
  rw [isNaN_iff.1 h]
  rfl

/-- What is not below zero is not below it when it is halved. -/
theorem not_half_lt_zero (h : ¬ x < 0) : ¬ x / 2 < 0 := by
  rcases isFinite_trichotomy x with hx | hx | hx
  · exact not_lt_of_isNaN (isNaN_div hx 2) 0
  · obtain ⟨s, hs⟩ := isInf_iff.1 hx
    have hhalf : (x / 2).toModel.unpack = .infinity s := by
      show (Float.Model.pack (UnpackedFloat.div .binary64 x.toModel.unpack (2 : Float).toModel.unpack)).unpack = _
      rw [hs]
      cases s <;> rfl
    cases s with
    | positive => exact not_lt_zero_of_infinity hhalf
    | negative =>
      rw [lt_iff_unpack, hs] at h
      exact absurd rfl h
  · exact (roundsTo_half hx).not_lt_zero (div_nonneg ((not_lt_zero_iff hx).1 h) zero_le_two)

/-- A positive infinity stays one in a sum, unless that is not a number. -/
theorem not_add_lt_zero_of_infinity (h : r.toModel.unpack = .infinity .positive) (x : Float) : ¬ r + x < 0 := by
  have hsum : UnpackedFloat.add .binary64 r.toModel.unpack x.toModel.unpack = .infinity .positive ∨
      UnpackedFloat.add .binary64 r.toModel.unpack x.toModel.unpack = .notANumber := by
    rw [h]
    cases x.toModel.unpack with
    | infinity s => cases s <;> simp [UnpackedFloat.add]
    | _ => simp [UnpackedFloat.add]
  have hunpack : (r + x).toModel.unpack =
    (Float.Model.pack (UnpackedFloat.add .binary64 r.toModel.unpack x.toModel.unpack)).unpack := rfl
  rcases hsum with hsum | hsum
  · exact not_lt_zero_of_infinity (by rw [hunpack, hsum]; rfl)
  · exact not_lt_of_isNaN (isNaN_iff.2 (by rw [hunpack, hsum]; rfl)) 0

/-! ### Degrees -/

theorem abs_value_ofInt {n : ℤ} (h : Exact n) : |value (Float.ofInt n)| = n.natAbs := by
  obtain ⟨m, e, hgrid, hn⟩ := h
  obtain ⟨s, hunpack⟩ := unpack_ofInt hgrid hn
  have hcast : (n.natAbs * 2 ^ (-e).toNat : ℚ) = m * 2 ^ e.toNat := by exact_mod_cast hn
  have hexponent : (2 : ℚ) ^ e = 2 ^ e.toNat / 2 ^ (-e).toNat := by
    rw [← zpow_natCast, ← zpow_natCast, ← zpow_sub₀ two_ne_zero]
    congr 1
    omega
  rw [abs_value_of_finite hunpack, hexponent, ← mul_div_assoc, ← hcast, mul_div_cancel_right₀ _ (by positivity)]

theorem one_le_abs_value_ofInt {n : ℤ} (h : Exact n) (hn : n ≠ 0) : 1 ≤ |value (Float.ofInt n)| := by
  rw [abs_value_ofInt h]
  exact_mod_cast Int.natAbs_pos.2 hn

/-- Dividing by a number from 1 on does not overflow. -/
theorem isFinite_div_of_one_le (hx : x.isFinite = true) (hy : y.isFinite = true) (hone : 1 ≤ |value y|) :
    (x / y).isFinite = true := by
  have hne : value y ≠ 0 := abs_pos.1 (one_pos.trans_le hone)
  refine (roundsTo_div hx hy hne).isFinite_iff.2 ?_
  rw [abs_div]
  exact (div_le_self (abs_nonneg _) hone).trans_lt (abs_value_lt_limit hx)

end Double

open Double (value)

/-! ### The functions -/

namespace Elementary.Lawful

variable [Elementary] (laws : Lawful) {x y : Float}

include laws

/-- The length of a pair of finite doubles is infinite, or finite and not below either of them. -/
theorem hypot_cases (hx : x.isFinite = true) (hy : y.isFinite = true) :
    (hypot x y).toModel.unpack = .infinity .positive ∨
      (hypot x y).isFinite = true ∧ |value x| ≤ value (hypot x y) ∧ |value y| ≤ value (hypot x y) := by
  obtain ⟨hleft, hright⟩ := laws.le_hypot x y hx hy
  rcases Double.cases_of_abs_le hx hleft with hinf | ⟨hfinite, hle⟩
  · exact .inl hinf
  rcases Double.cases_of_abs_le hy hright with hinf | ⟨-, hle'⟩
  · exact .inl hinf
  · exact .inr ⟨hfinite, hle, hle'⟩

theorem not_hypot_add_lt_zero (x y : Float) : ¬ hypot x y + x < 0 ∧ ¬ hypot x y - x < 0 := by
  rw [Double.sub_eq_add_neg]
  have hsum (h : (hypot x y).toModel.unpack = .infinity .positive) : ¬ hypot x y + x < 0 ∧ ¬ hypot x y + -x < 0 :=
    ⟨Double.not_add_lt_zero_of_infinity h x, Double.not_add_lt_zero_of_infinity h (-x)⟩
  by_cases hinf : x.isInf = true ∨ y.isInf = true
  · refine hsum ?_
    rw [laws.hypot_infinity x y hinf]
    rfl
  rw [not_or] at hinf
  by_cases hnan : x.isNaN = true ∨ y.isNaN = true
  · have hlength := laws.hypot_nan x y (Bool.eq_false_iff.2 hinf.1) (Bool.eq_false_iff.2 hinf.2) hnan
    exact ⟨Double.not_lt_of_isNaN (Double.isNaN_add hlength x) 0,
      Double.not_lt_of_isNaN (Double.isNaN_add hlength (-x)) 0⟩
  rw [not_or] at hnan
  have hx : x.isFinite = true := ((Double.isFinite_trichotomy x).resolve_left hnan.1).resolve_left hinf.1
  have hy : y.isFinite = true := ((Double.isFinite_trichotomy y).resolve_left hnan.2).resolve_left hinf.2
  rcases laws.hypot_cases hx hy with hlength | ⟨hlength, hle, -⟩
  · exact hsum hlength
  · refine ⟨(Double.roundsTo_add hlength hx).not_lt_zero ?_,
      (Double.roundsTo_add hlength (Double.isFinite_neg_iff.2 hx)).not_lt_zero ?_⟩
    · linarith [neg_abs_le (value x)]
    · rw [Double.value_neg]
      linarith [le_abs_self (value x)]

/-- Angles are numbers or not a number, and never infinite. -/
theorem isInf_atan2_div (y x : Float) {n : Float} (hn : n.isFinite = true) (hone : 1 ≤ |value n|) :
    (atan2 y x / n).isInf = false := by
  by_cases hnan : y.isNaN = true ∨ x.isNaN = true
  · exact Double.isInf_of_isNaN (Double.isNaN_div (laws.atan2_nan y x hnan) n)
  · rw [not_or, Bool.not_eq_true, Bool.not_eq_true] at hnan
    have hangle := Double.isFinite_of_abs_le (by rfl) (laws.atan2_range y x hnan.1 hnan.2)
    exact Double.isInf_of_isFinite (Double.isFinite_div_of_one_le hangle.1 hn hone)

end Elementary.Lawful

/-! ### Functions with few values -/

/-- The sum of the sides for a length, a power that tells signs apart, and the angles of `1` and `1 + i`, each of them
as it is or halved. -/
@[reducible]
def Elementary.few : Elementary where
  hypot x y := if x.isInf || y.isInf then 1 / 0 else x.abs + y.abs
  pow r a := if a < 0 then 0 else r
  exp _ := 1
  log _ := 0
  atan2 y x := if y.isNaN || x.isNaN then 0 / 0 else if y == 0 then 0 else 0.7853981633974483
  cos θ := if θ == 0 then 1 else 0.9238795325112867
  sin θ := if θ == 0 then 0 else 0.3826834323650898

theorem Elementary.lawful_few : @Elementary.Lawful few := by
  let := few
  constructor
  case hypot_infinity =>
    intro x y h
    exact if_pos (Bool.or_eq_true _ _ ▸ h)
  case hypot_nan =>
    intro x y hx hy h
    show (if x.isInf || y.isInf then 1 / 0 else x.abs + y.abs).isNaN = true
    rw [hx, hy]
    exact h.elim (fun h => Double.isNaN_add (Double.isNaN_abs h) _)
      (fun h => Double.isNaN_add_of_right (Double.isNaN_abs h) _)
  case le_hypot =>
    intro x y hx hy
    show (x.abs ≤ if x.isInf || y.isInf then 1 / 0 else x.abs + y.abs) ∧
      y.abs ≤ if x.isInf || y.isInf then 1 / 0 else x.abs + y.abs
    rw [Double.isInf_of_isFinite hx, Double.isInf_of_isFinite hy]
    obtain ⟨hleft, hvalue⟩ := Double.isFinite_abs hx
    obtain ⟨hright, hvalue'⟩ := Double.isFinite_abs hy
    have hsum := Double.roundsTo_add hleft hright
    rw [hvalue, hvalue'] at hsum
    exact ⟨hsum.abs_le hx (le_add_of_nonneg_right (abs_nonneg _)),
      hsum.abs_le hy (le_add_of_nonneg_left (abs_nonneg _))⟩
  case pow_nonneg =>
    intro r a hr _
    show 0 ≤ if a < 0 then 0 else r
    split
    · decide +kernel
    · exact hr
  case pow_infinity =>
    intro a ha
    exact if_neg (Double.lt_asymm ha)
  case pow_infinity_of_neg =>
    intro a ha
    exact if_pos ha
  case atan2_range =>
    intro y x hy hx
    show (if y.isNaN || x.isNaN then 0 / 0 else if y == 0 then 0 else 0.7853981633974483 : Float).abs ≤ _
    rw [hy, hx]
    simp only [Bool.or_self, Bool.false_eq_true, if_false]
    split <;> decide +kernel
  case atan2_nan =>
    intro y x h
    show (if y.isNaN || x.isNaN then 0 / 0 else if y == 0 then 0 else 0.7853981633974483 : Float).isNaN = true
    rw [if_pos (Bool.or_eq_true _ _ ▸ h)]
    rfl
  case cos_range =>
    intro x _
    show (if x == 0 then 1 else 0.9238795325112867 : Float).abs ≤ 1
    split <;> decide +kernel
  case sin_range =>
    intro x _
    show (if x == 0 then 0 else 0.3826834323650898 : Float).abs ≤ 1
    split <;> decide +kernel

namespace Complex

variable [Elementary] (laws : Elementary.Lawful)

include laws

/-- Square roots have a value for every number. -/
theorem sqrt_eq (z : Complex) : z.sqrt = .ok (ofParts (Float.sqrt ((z.magnitude + z.re) / 2))
    (if z.im < 0 then -Float.sqrt ((z.magnitude - z.re) / 2) else Float.sqrt ((z.magnitude - z.re) / 2))) := by
  obtain ⟨hsum, hdifference⟩ := laws.not_hypot_add_lt_zero z.re z.im
  have hre : realSqrt ((z.magnitude + z.re) / 2) = .ok (Float.sqrt ((z.magnitude + z.re) / 2)) :=
    if_neg (Double.not_half_lt_zero hsum)
  have him : realSqrt ((z.magnitude - z.re) / 2) = .ok (Float.sqrt ((z.magnitude - z.re) / 2)) :=
    if_neg (Double.not_half_lt_zero hdifference)
  rw [sqrt, hre, him]
  rfl

theorem ofPolar_eq (z : Complex) {m n : Float} (hn : n.isFinite = true) (hone : 1 ≤ |value n|) :
    ofPolar m (z.angle / n) =
      .ok (ofParts (m * Elementary.cos (z.angle / n)) (m * Elementary.sin (z.angle / n))) := by
  have hangle : (z.angle / n).isInf = false := laws.isInf_atan2_div z.im z.re hn hone
  rw [ofPolar, atAngle, atAngle, hangle]
  rfl

/-- A root of a degree that is a nonzero integer and a double. -/
theorem nthRoot_eq (z : Complex) {n : ℤ} (hn : n ≠ 0) (h : Double.Exact n) :
    z.nthRoot (.int n) = match realPower z.magnitude (Scalar.int n).reciprocal with
      | .error .zeroDivisor => .error (.eval .negativeRootOfZero)
      | .error .overflow => .error (.fault .outOfRange)
      | .ok m => .ok (ofParts (m * Elementary.cos (z.angle / Float.ofInt n))
          (m * Elementary.sin (z.angle / Float.ofInt n))) := by
  obtain ⟨hfinite, hinteger⟩ := Double.ofInt_of_exact h
  have hzero : (Scalar.int n).isZero = false := beq_eq_false_iff_ne.2 hn
  have hfloat : (Scalar.int n).toFloat? = some (Float.ofInt n) := if_pos hfinite
  rw [nthRoot, hzero, hfloat]
  simp only [Bool.false_eq_true, if_false, hinteger, Bool.not_true,
    ofPolar_eq laws z hfinite (Double.one_le_abs_value_ofInt h hn)]
  rfl

end Complex

end Phasor
