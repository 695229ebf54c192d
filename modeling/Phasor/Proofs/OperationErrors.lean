import Phasor.Evaluation
import Phasor.Proofs.Tokens

/-!
# How operations fail

The errors of each operation on complex numbers: an operator on two numbers fails with a domain error only
(`applyOperator_eq_error`), and a root may also leave the number system (`applyRoot_eq_error`). Numbers in
writing, as literals and in bindings, can only be misread or too large.
-/

namespace Phasor

/-- Operations that know errors of one kind fail with these only. -/
theorem mapError_eq_error {ε ε' α : Type} {f : ε → ε'} {x : Except ε α} {e : ε'} (h : x.mapError f = .error e) :
    ∃ err, x = .error err ∧ e = f err := by
  cases x with
  | ok a => exact absurd h (by simp [Except.mapError])
  | error err => exact ⟨err, rfl, (Except.error.inj h).symm⟩

theorem mapError_eq_ok {ε ε' α : Type} {f : ε → ε'} {x : Except ε α} {a : α} (h : x.mapError f = .ok a) :
    x = .ok a := by
  cases x with
  | ok b => rw [Except.ok.inj h]
  | error err => exact absurd h (by simp [Except.mapError])

theorem bind_eq_error_iff {ε α β : Type} {x : Except ε α} {f : α → Except ε β} {e : ε} :
    x >>= f = .error e ↔ x = .error e ∨ ∃ a, x = .ok a ∧ f a = .error e := by
  cases x <;> simp [bind, Except.bind]

theorem bind_eq_ok_iff {ε α β : Type} {x : Except ε α} {f : α → Except ε β} {b : β} :
    x >>= f = .ok b ↔ ∃ a, x = .ok a ∧ f a = .ok b := by
  cases x <;> simp [bind, Except.bind]

theorem realSqrt_eq_error {x : Float} {f : Fault} (h : realSqrt x = .error f) : x < 0 ∧ f = .badValue := by
  unfold realSqrt at h
  split at h
  · rename_i hx
    exact ⟨hx, (Except.error.inj h).symm⟩
  · exact absurd h (by simp)

theorem atAngle_eq_error {g : Float → Float} {θ : Float} {f : Fault} (h : atAngle g θ = .error f) :
    θ.isInf = true ∧ f = .badValue := by
  unfold atAngle at h
  split at h
  · rename_i hθ
    exact ⟨hθ, (Except.error.inj h).symm⟩
  · exact absurd h (by simp)

namespace Complex

variable {z w : Complex} {err : EvalError}

theorem ofLiteral_eq_error {t : String} (h : ofLiteral t = .error err) : err = .invalidLiteral t := by
  unfold ofLiteral at h
  dsimp only at h
  split at h
  · split at h
    · exact absurd h (by simp)
    · exact (Except.error.inj h).symm
  · exact (Except.error.inj h).symm

theorem ofInput_eq_error {t : String} (h : ofInput t = .error err) : err = .invalidLiteral t := by
  unfold ofInput at h
  dsimp only at h
  split at h
  · exact absurd h (by simp)
  · exact absurd h (by simp)
  · exact absurd h (by simp)
  · exact (Except.error.inj h).symm

theorem div_eq_error (h : z.div w = .error err) : err = .zeroDivisor := by
  unfold div at h
  dsimp only at h
  split at h
  · exact (Except.error.inj h).symm
  · exact absurd h (by simp)

theorem intPower_eq_error {n : Int} (h : z.intPower n = .error err) : err = .zeroDivisor ∨ err = .overflow := by
  unfold intPower at h
  split at h
  · exact .inr (Except.error.inj h).symm
  split at h
  · exact .inl (div_eq_error h)
  · exact absurd h (by simp)

variable [Elementary]

theorem polarPower_eq_error (h : z.polarPower w = .error err) : err = .negativePowerOfZero ∨ err = .overflow := by
  unfold polarPower at h
  dsimp only at h
  split at h
  · exact .inl (Except.error.inj h).symm
  · exact .inr (Except.error.inj h).symm
  · generalize w.re * z.angle + w.im * Elementary.log _ = φ at h
    split at h
    · split at h
      · exact absurd h (by simp)
      · exact .inr (Except.error.inj h).symm
    · exact .inr (Except.error.inj h).symm

theorem power_eq_error (h : z.power w = .error err) :
    err = .zeroDivisor ∨ err = .negativePowerOfZero ∨ err = .overflow := by
  unfold power at h
  split at h
  · exact (intPower_eq_error h).imp_right .inr
  · exact .inr (polarPower_eq_error h)

theorem ofPolar_eq_error {r θ : Float} {f : Fault} (h : ofPolar r θ = .error f) : θ.isInf = true ∧ f = .badValue := by
  rcases bind_eq_error_iff.1 h with h | ⟨c, -, h⟩
  · exact atAngle_eq_error h
  rcases bind_eq_error_iff.1 h with h | ⟨s, -, h⟩
  · exact atAngle_eq_error h
  · exact absurd h (by simp [pure, Except.pure])

theorem sqrt_eq_error {f : Fault} (h : z.sqrt = .error f) :
    ((z.magnitude + z.re) / 2 < 0 ∨ (z.magnitude - z.re) / 2 < 0) ∧ f = .badValue := by
  rcases bind_eq_error_iff.1 h with h | ⟨x, -, h⟩
  · exact (realSqrt_eq_error h).imp_left .inl
  rcases bind_eq_error_iff.1 h with h | ⟨y, -, h⟩
  · exact (realSqrt_eq_error h).imp_left .inr
  · exact absurd h (by simp [pure, Except.pure])

theorem nthRoot_eq_error {n : Scalar} {f : Failure} (h : z.nthRoot n = .error f) :
    f = .eval (.invalidDegree n) ∨ f = .eval .negativeRootOfZero ∨ f = .fault .outOfRange ∨ f = .fault .badValue := by
  unfold nthRoot at h
  split at h
  · exact .inl (Except.error.inj h).symm
  split at h
  · exact .inr (.inr (.inl (Except.error.inj h).symm))
  split at h
  · exact .inl (Except.error.inj h).symm
  split at h
  · exact .inr (.inl (Except.error.inj h).symm)
  · exact .inr (.inr (.inl (Except.error.inj h).symm))
  · obtain ⟨g, hpolar, rfl⟩ := mapError_eq_error h
    rw [(ofPolar_eq_error hpolar).2]
    exact .inr (.inr (.inr rfl))

end Complex

theorem Binding.value_eq_error {b : Binding} {f : Failure} (h : b.value = .error f) :
    (∃ t, f = .eval (.invalidLiteral t)) ∨ f = .fault .outOfRange := by
  unfold value at h
  split at h
  · exact absurd h (by simp)
  · exact absurd h (by simp)
  · rename_i s
    obtain ⟨err, hread, rfl⟩ := mapError_eq_error h
    obtain rfl := Complex.ofInput_eq_error hread
    exact .inl ⟨s, rfl⟩
  · exact absurd h (by simp)
  · exact absurd h (by simp)
  · split at h
    · exact absurd h (by simp)
    · exact .inr (Except.error.inj h).symm
  · exact .inl ⟨_, (Except.error.inj h).symm⟩

section

variable [Elementary]

theorem applyOperator_eq_error {op : String} {z w : Complex} {err : EvalError} (hop : isBinarySymbol op = true)
    (h : applyOperator op z w = .error err) :
    err = .zeroDivisor ∨ err = .negativePowerOfZero ∨ err = .overflow := by
  rcases isBinarySymbol_iff.1 hop with rfl | rfl | rfl | rfl | rfl | rfl
  · exact absurd h (by simp [applyOperator])
  · exact absurd h (by simp [applyOperator])
  · exact absurd h (by simp [applyOperator])
  · exact .inl (Complex.div_eq_error h)
  · exact Complex.power_eq_error h
  · exact Complex.power_eq_error h

theorem applyOperator_of_not_isBinarySymbol {op : String} (h : ¬ isBinarySymbol op = true) (z w : Complex) :
    applyOperator op z w = .error (.unknownOperator op) := by
  simp only [isBinarySymbol_iff, not_or] at h
  obtain ⟨hadd, hsub, hmul, hdiv, hpower, hcaret⟩ := h
  unfold applyOperator
  split
  · exact absurd rfl hadd
  · exact absurd rfl hsub
  · exact absurd rfl hmul
  · exact absurd rfl hdiv
  · exact absurd rfl hpower
  · exact absurd rfl hcaret
  · rfl

omit [Elementary] in
theorem roundHalfUp_eq_error {x : Float} {f : Fault} (h : roundHalfUp x = .error f) :
    f = .badValue ∨ f = .outOfRange := by
  unfold roundHalfUp at h
  split at h
  · exact absurd h (by simp)
  · obtain rfl := Except.error.inj h
    split
    · exact .inl rfl
    · exact .inr rfl

theorem applyRoot_eq_error {z degree : Complex} {f : Failure} (h : applyRoot z degree = .error f) :
    f = .eval (.complexDegree degree) ∨ (∃ n, f = .eval (.invalidDegree n)) ∨ f = .eval .negativeRootOfZero ∨
      f = .fault .outOfRange ∨ f = .fault .badValue := by
  unfold applyRoot at h
  split at h
  · exact .inl (Except.error.inj h).symm
  split at h
  · rcases Complex.nthRoot_eq_error h with rfl | rfl | rfl | rfl
    · exact .inr (.inl ⟨_, rfl⟩)
    · exact .inr (.inr (.inl rfl))
    · exact .inr (.inr (.inr (.inl rfl)))
    · exact .inr (.inr (.inr (.inr rfl)))
  · rename_i hround
    obtain rfl := Except.error.inj h
    rcases roundHalfUp_eq_error hround with rfl | rfl
    · exact .inr (.inr (.inr (.inr rfl)))
    · exact .inr (.inr (.inr (.inl rfl)))

end

end Phasor
