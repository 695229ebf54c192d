import Phasor.Proofs.Tolerances
import Phasor.Proofs.VanishingDivisors

/-!
# Powers with integer exponents

An exponent stands for an integer if its real part is one and its imaginary part is small (`Complex.IsExponent`). Its
power is a run of multiplications that stops at the first product that is not finite, and a longer run is a shorter one
that goes on (`Complex.mulTimes_add`). So the powers below one that has a value have values, each the one before times
the base, the powers beyond one that overflows overflow too, and an opposite exponent only inverts what the run gives
(`Complex.power_of_isExponent`).
-/

namespace Phasor

open Double (value)

theorem Dyadic.isInteger_iff {x : Float} {d : Dyadic} (h : Dyadic.ofFloat? x = some d) :
    d.isInteger = true ↔ value x = d.floor := by
  have hden : (d.den : ℚ) ≠ 0 := by exact_mod_cast d.den_pos.ne'
  have hsign : (d.den : ℤ) ∣ d.signedNum ↔ d.den ∣ d.num := by
    rw [Dyadic.signedNum]
    split
    · rw [Int.dvd_neg, Int.natCast_dvd_natCast]
    · rw [Int.natCast_dvd_natCast]
  rw [Dyadic.isInteger, beq_iff_eq, ← Nat.dvd_iff_mod_eq_zero, ← hsign, Dyadic.value_eq h, Dyadic.floor]
  constructor
  · intro hdvd
    rw [Int.cast_div hdvd (by exact_mod_cast hden), Int.cast_natCast]
  · intro heq
    rw [div_eq_iff hden] at heq
    exact ⟨_, by rw [Int.mul_comm]; exact_mod_cast heq⟩

namespace Complex

variable {z w acc p : Complex} {m n : ℕ}

/-! ### Exponents -/

/-- The exponent stands for the integer `k`. -/
structure IsExponent (w : Complex) (k : ℤ) : Prop where
  isFinite_re : w.re.isFinite = true
  value_re : value w.re = k
  abs_im : w.im.abs < realExponentBound

theorem intExponent?_eq_some_iff {k : ℤ} : w.intExponent? = some k ↔ w.IsExponent k := by
  constructor
  · intro h
    unfold intExponent? at h
    split at h
    · rename_i him
      split at h
      · rename_i d hd
        split at h
        · rename_i hinteger
          obtain rfl := Option.some.inj h
          exact ⟨Double.isFinite_of_ofFloat? hd, (Dyadic.isInteger_iff hd).1 hinteger, him⟩
        · exact absurd h (by simp)
      · exact absurd h (by simp)
    · exact absurd h (by simp)
  · rintro ⟨hfinite, hvalue, him⟩
    obtain ⟨d, hd⟩ := Double.exists_ofFloat? hfinite
    have hfloor : d.floor = k := by rw [Dyadic.floor_eq hd, hvalue, Int.floor_intCast]
    have hinteger : d.isInteger = true := (Dyadic.isInteger_iff hd).2 (by rw [hvalue, hfloor])
    rw [intExponent?, if_pos him, hd]
    dsimp only
    rw [if_pos hinteger, hfloor]

theorem IsExponent.power_eq [Elementary] {k : ℤ} (h : w.IsExponent k) (z : Complex) : z.power w = z.intPower k := by
  rw [power, intExponent?_eq_some_iff.2 h]

/-! ### Repeated multiplication -/

theorem mulTimes_add (z : Complex) (m n : ℕ) (acc : Complex) :
    z.mulTimes (m + n) acc = (z.mulTimes m acc).bind (z.mulTimes n) := by
  induction m generalizing acc with
  | zero => rw [Nat.zero_add, mulTimes, Option.bind_some]
  | succ m ih =>
    rw [Nat.succ_add, mulTimes, mulTimes]
    split
    · exact ih _
    · rfl

/-- A run that stops does not go on. -/
theorem mulTimes_eq_none_of_le (hmn : m ≤ n) (h : z.mulTimes m acc = none) : z.mulTimes n acc = none := by
  rw [← Nat.add_sub_cancel' hmn, mulTimes_add, h, Option.bind_none]

theorem exists_mulTimes_of_le (hmn : m ≤ n) (h : z.mulTimes n acc = some p) : ∃ q, z.mulTimes m acc = some q := by
  cases hq : z.mulTimes m acc with
  | none => exact absurd (mulTimes_eq_none_of_le hmn hq) (by simp [h])
  | some q => exact ⟨q, rfl⟩

/-- The last product of a run that can go on. -/
theorem mulTimes_succ_eq_some {q : Complex} (hmn : m < n) (h : z.mulTimes n acc = some p)
    (hq : z.mulTimes m acc = some q) : z.mulTimes (m + 1) acc = some (q.mul z) := by
  obtain ⟨r, hr⟩ := exists_mulTimes_of_le hmn h
  rw [Nat.succ_eq_add_one, mulTimes_add, hq, Option.bind_some, mulTimes] at hr
  split at hr
  · rename_i hfinite
    rw [mulTimes_add, hq, Option.bind_some, mulTimes, if_pos hfinite, mulTimes]
  · exact absurd hr (by simp)

/-! ### Powers -/

theorem intPower_eq_overflow_iff {k : ℤ} : z.intPower k = .error .overflow ↔ z.mulTimes k.natAbs one = none := by
  rw [intPower]
  cases z.mulTimes k.natAbs one with
  | none => exact iff_of_true rfl rfl
  | some p =>
    refine iff_of_false (fun h => ?_) (by simp)
    dsimp only at h
    split at h
    · exact absurd (div_eq_error h) (by simp)
    · exact absurd h (by simp)

theorem intPower_natCast_eq_ok_iff : z.intPower n = .ok p ↔ z.mulTimes n one = some p := by
  have hn : ¬ (n : ℤ) < 0 := by omega
  rw [intPower, Int.natAbs_natCast]
  cases z.mulTimes n one with
  | none => exact iff_of_false (by simp) (by simp)
  | some q =>
    dsimp only
    rw [if_neg hn, Except.ok.injEq, Option.some.injEq]

theorem intPower_neg_eq_overflow_iff {k : ℤ} :
    z.intPower (-k) = .error .overflow ↔ z.intPower k = .error .overflow := by
  rw [intPower_eq_overflow_iff, intPower_eq_overflow_iff, Int.natAbs_neg]

theorem intPower_eq_overflow_of_le {j k : ℤ} (hle : k.natAbs ≤ j.natAbs) (h : z.intPower k = .error .overflow) :
    z.intPower j = .error .overflow :=
  intPower_eq_overflow_iff.2 (mulTimes_eq_none_of_le hle (intPower_eq_overflow_iff.1 h))

/-- A power that does not overflow has a value, and the opposite one inverts it. -/
theorem exists_intPower (hn : 0 < n) (h : z.intPower n ≠ .error .overflow) :
    ∃ p, z.intPower n = .ok p ∧ z.intPower (-n) = one.div p := by
  rw [Ne, intPower_eq_overflow_iff, Int.natAbs_natCast] at h
  obtain ⟨p, hp⟩ := Option.ne_none_iff_exists'.1 h
  refine ⟨p, intPower_natCast_eq_ok_iff.2 hp, ?_⟩
  rw [intPower, Int.natAbs_neg, Int.natAbs_natCast, hp]
  exact if_pos (by omega)

/-- The powers below one that has a value, each the one before times the base. -/
theorem exists_intPower_of_le (hmn : m ≤ n) (h : z.intPower n = .ok p) :
    ∃ q, z.intPower m = .ok q ∧ (m < n → z.intPower (m + 1 : ℕ) = .ok (q.mul z)) := by
  have hp := intPower_natCast_eq_ok_iff.1 h
  obtain ⟨q, hq⟩ := exists_mulTimes_of_le hmn hp
  refine ⟨q, intPower_natCast_eq_ok_iff.2 hq, fun hlt => ?_⟩
  exact intPower_natCast_eq_ok_iff.2 (mulTimes_succ_eq_some hlt hp hq)

/-- Powers with opposite and with greater exponents. The opposite power overflows if and only if the power does, and
inverts it otherwise. The powers below one that has a value have values, each the one before times the base, and the
powers beyond one that overflows overflow too, inverted or not. -/
theorem power_of_isExponent [Elementary] (z : Complex) {w w' : Complex} {k : ℤ} (hk : 0 < k) (hw : w.IsExponent k)
    (hw' : w'.IsExponent (-k)) :
    (z.power w' = .error .overflow ↔ z.power w = .error .overflow) ∧
    (z.power w ≠ .error .overflow → ∃ p, z.power w = .ok p ∧ z.power w' = one.div p) ∧
    (∀ p, z.power w = .ok p → ∀ (j : ℤ) (v : Complex), 1 ≤ j → j ≤ k → v.IsExponent j →
      ∃ q, z.power v = .ok q ∧
        (j < k → ∀ v' : Complex, v'.IsExponent (j + 1) → z.power v' = .ok (q.mul z))) ∧
    (z.power w = .error .overflow → ∀ (j : ℤ) (v : Complex), k ≤ |j| → v.IsExponent j →
      z.power v = .error .overflow) := by
  obtain ⟨n, rfl⟩ : ∃ n : ℕ, k = n := ⟨k.toNat, (Int.toNat_of_nonneg hk.le).symm⟩
  rw [hw.power_eq, hw'.power_eq]
  refine ⟨intPower_neg_eq_overflow_iff, exists_intPower (by omega), ?_, ?_⟩
  · intro p hp j v hj hjk hv
    obtain ⟨m, rfl⟩ : ∃ m : ℕ, j = m := ⟨j.toNat, (Int.toNat_of_nonneg (by omega)).symm⟩
    obtain ⟨q, hq, hnext⟩ := exists_intPower_of_le (by omega : m ≤ n) hp
    refine ⟨q, (hv.power_eq z).trans hq, fun hlt v' hv' => ?_⟩
    exact (hv'.power_eq z).trans (hnext (by omega))
  · intro h j v hj hv
    rw [Int.abs_eq_natAbs] at hj
    exact (hv.power_eq z).trans (intPower_eq_overflow_of_le (by omega) h)

/-- The square of two is one product more than two, and the opposite power inverts it. The square of the greater number
overflows, and so do the opposite power and those beyond it. -/
theorem power_of_isExponent_two :
    let z : Complex := ⟨2, 0⟩
    let huge : Complex := ⟨1e200, 0⟩
    IsExponent ⟨2, 0⟩ 2 ∧ IsExponent ⟨-2, 1e-15⟩ (-2) ∧
      (∃ q, z.power ⟨1, 0⟩ = .ok q ∧ z.power ⟨2, 0⟩ = .ok (q.mul z)) ∧
      z.power ⟨-2, 1e-15⟩ = one.div (z.mul z) ∧ huge.power ⟨-2, 1e-15⟩ = .error .overflow ∧
      huge.power ⟨-3, 0⟩ = .error .overflow := by
  intro z huge
  have htwo : IsExponent ⟨2, 0⟩ 2 := intExponent?_eq_some_iff.1 (by decide +kernel)
  have hopposite : IsExponent ⟨-2, 1e-15⟩ (-2) := intExponent?_eq_some_iff.1 (by decide +kernel)
  have hone : IsExponent ⟨1, 0⟩ 1 := intExponent?_eq_some_iff.1 (by decide +kernel)
  have hbeyond : IsExponent ⟨-3, 0⟩ (-3) := intExponent?_eq_some_iff.1 (by decide +kernel)
  have hsquare : z.power ⟨2, 0⟩ = .ok (z.mul z) := by decide +kernel
  have hhuge : huge.power ⟨2, 0⟩ = .error .overflow := by decide +kernel
  obtain ⟨-, hinverse, hbelow, -⟩ := power_of_isExponent z (by decide) htwo hopposite
  obtain ⟨hsame, -, -, hbeyond'⟩ := power_of_isExponent huge (by decide) htwo hopposite
  obtain ⟨q, hq, hnext⟩ := hbelow _ hsquare 1 _ (by decide) (by decide) hone
  obtain ⟨p, hp, hinverted⟩ := hinverse (by simp [hsquare])
  obtain rfl := Except.ok.inj (hsquare.symm.trans hp)
  exact ⟨htwo, hopposite, ⟨q, hq, hnext (by decide) _ htwo⟩, hinverted, hsame.2 hhuge,
    hbeyond' hhuge (-3) _ (by decide) hbeyond⟩

end Complex

end Phasor
