import Phasor.Proofs.Lengths
import Phasor.Proofs.Safety
import Phasor.Proofs.Values

/-!
# Faults of roots

Evaluation fails with a domain error as a rule. The exception is a root whose degree is not finite, or whose
length has no double as its power (`RootFault`): there it leaves the number system, and nothing else does
(`Expr.evaluate_eq_fault_iff`).
-/

namespace Phasor

open Double (Exact)

/-! ### The degree -/

section

variable {x : Float} {n : Int}

theorem roundHalfUp_of_isFinite (h : x.isFinite = true) : ∃ n, roundHalfUp x = .ok n ∧ (n = 0 ∨ Exact n) := by
  obtain ⟨d, hd⟩ := Double.exists_ofFloat? (Double.isFinite_add_half h)
  refine ⟨d.floor, ?_, Double.exact_floor hd⟩
  rw [roundHalfUp, hd]

theorem roundHalfUp_of_isInf (h : x.isInf = true) : roundHalfUp x = .error .outOfRange := by
  have hsum := Double.isInf_add_half h
  rw [roundHalfUp, Double.ofFloat?_of_isInf hsum, Double.isNaN_of_isInf hsum]
  rfl

theorem roundHalfUp_of_isNaN (h : x.isNaN = true) : roundHalfUp x = .error .badValue := by
  have hsum := Double.isNaN_add_half h
  rw [roundHalfUp, Double.ofFloat?_of_isNaN hsum, hsum]
  rfl

/-- The integer that a degree is rounded to is always a double itself. -/
theorem exact_of_roundHalfUp (h : roundHalfUp x = .ok n) : n = 0 ∨ Exact n := by
  rcases Double.isFinite_trichotomy x with hnan | hinf | hfinite
  · rw [roundHalfUp_of_isNaN hnan] at h
    exact absurd h (by simp)
  · rw [roundHalfUp_of_isInf hinf] at h
    exact absurd h (by simp)
  · obtain ⟨m, hm, hexact⟩ := roundHalfUp_of_isFinite hfinite
    rw [hm] at h
    rwa [← Except.ok.inj h]

end

/-! ### The root -/

section

variable [Elementary] {z degree : Complex} {f : Fault}

/-- The ways in which a root leaves the number system. -/
inductive RootFault (z degree : Complex) : Fault → Prop
  | infinite (h : degree.re.isInf = true) : RootFault z degree .outOfRange
  | notANumber (h : degree.re.isNaN = true) : RootFault z degree .badValue
  | overflow {n : Int} (hdegree : roundHalfUp degree.re = .ok n) (hn : n ≠ 0)
    (h : realPower z.magnitude (Scalar.int n).reciprocal = .error .overflow) : RootFault z degree .outOfRange

variable (laws : Elementary.Lawful)

include laws

/-- A degree that is a nonzero integer and a double leaves only the power to overflow. -/
theorem Complex.nthRoot_eq_fault_iff (z : Complex) {n : Int} {f : Fault} (hn : n ≠ 0) (h : Exact n) :
    z.nthRoot (.int n) = .error (.fault f) ↔
      realPower z.magnitude (Scalar.int n).reciprocal = .error .overflow ∧ Fault.outOfRange = f := by
  rw [nthRoot_eq laws z hn h]
  cases realPower z.magnitude (Scalar.int n).reciprocal with
  | ok m => simp
  | error err => cases err <;> simp

theorem RootFault.applyRoot_eq (him : ¬ degree.im.abs > degreeBound) (h : RootFault z degree f) :
    applyRoot z degree = .error (.fault f) := by
  rw [applyRoot, if_neg him]
  cases h with
  | infinite h => rw [roundHalfUp_of_isInf h]
  | notANumber h => rw [roundHalfUp_of_isNaN h]
  | @overflow n hdegree hn h =>
    have hexact := (exact_of_roundHalfUp hdegree).resolve_left hn
    rw [hdegree]
    exact (Complex.nthRoot_eq_fault_iff laws z hn hexact).2 ⟨h, rfl⟩

theorem rootFault_of_applyRoot (h : applyRoot z degree = .error (.fault f)) :
    ¬ degree.im.abs > degreeBound ∧ RootFault z degree f := by
  unfold applyRoot at h
  split at h
  · exact absurd h (by simp)
  rename_i him
  refine ⟨him, ?_⟩
  rcases Double.isFinite_trichotomy degree.re with hnan | hinf | hfinite
  · rw [roundHalfUp_of_isNaN hnan] at h
    obtain rfl : Fault.badValue = f := by simpa using h
    exact .notANumber hnan
  · rw [roundHalfUp_of_isInf hinf] at h
    obtain rfl : Fault.outOfRange = f := by simpa using h
    exact .infinite hinf
  · obtain ⟨n, hn, hexact⟩ := roundHalfUp_of_isFinite hfinite
    rw [hn] at h
    replace h : z.nthRoot (.int n) = .error (.fault f) := h
    by_cases hne : n = 0
    · subst hne
      exact absurd h (by simp [Complex.nthRoot, Scalar.isZero])
    · obtain ⟨hpower, rfl⟩ := (Complex.nthRoot_eq_fault_iff laws z hne (hexact.resolve_left hne)).1 h
      exact .overflow hn hne hpower

theorem applyRoot_eq_fault_iff :
    applyRoot z degree = .error (.fault f) ↔ ¬ degree.im.abs > degreeBound ∧ RootFault z degree f :=
  ⟨rootFault_of_applyRoot laws, fun h => h.2.applyRoot_eq laws h.1⟩

end

/-! ### Evaluation -/

/-- Every variable is bound to a complex number. -/
def Environment.IsComplex (env : Environment) : Prop := ∀ p ∈ env, ∃ z, p.2 = .complex z

theorem Environment.IsComplex.value_ne_fault {env : Environment} (h : env.IsComplex) (n : String) (f : Fault) :
    env.value n ≠ .error (.fault f) := by
  unfold Environment.value
  cases hb : env.find? n with
  | none => simp
  | some b =>
    obtain ⟨z, rfl⟩ : ∃ z, b = .complex z := h _ (mem_of_find? hb)
    simp [Binding.value]

namespace Expr

section

variable [Elementary] (laws : Elementary.Lawful) {env : Environment} {e : Expr}

include laws

/-- A node of a well-formed tree that fails with a fault is a root whose arguments have values. -/
theorem exists_root_of_fault {n : Expr} (hn : n.Proper) (henv : env.IsComplex) (h : FailsFirst env e n (.fault f)) :
    ∃ a d z w, n = call "root" [a, d] ∧ a.evaluate env = .ok z ∧ d.evaluate env = .ok w ∧
      applyRoot z w = .error (.fault f) := by
  obtain ⟨zs, hzs, hoperate⟩ := h.operate
  have hlength := length_of_evaluateAll hzs
  have hroot : ∀ args, n = call "root" args → ∃ a d z w, n = call "root" [a, d] ∧ a.evaluate env = .ok z ∧
      d.evaluate env = .ok w ∧ applyRoot z w = .error (.fault f) := by
    rintro args rfl
    obtain ⟨a, d, rfl⟩ := List.length_eq_two.1 hn.2
    obtain ⟨z, ws, hz, hws, rfl⟩ := evaluateAll_cons_eq_ok_iff.1 hzs
    obtain ⟨w, _, hw, hnil, rfl⟩ := evaluateAll_cons_eq_ok_iff.1 hws
    obtain rfl := Except.ok.inj hnil
    exact ⟨a, d, z, w, rfl, hz, hw, hoperate⟩
  cases failsAt_of_operate hn hlength hoperate with
  | tooLarge n => exact absurd hoperate (henv.value_ne_fault n _)
  | rootRange args => exact hroot args rfl
  | degreeValue args => exact hroot args rfl
  | sqrtValue args =>
    obtain ⟨a, rfl⟩ := List.length_eq_one_iff.1 hn.2
    obtain ⟨z, ws, -, hnil, rfl⟩ := evaluateAll_cons_eq_ok_iff.1 hzs
    obtain rfl := Except.ok.inj hnil
    obtain ⟨g, hsqrt, -⟩ := mapError_eq_error hoperate
    exact absurd ((Complex.sqrt_eq laws z).symm.trans hsqrt) (by simp)

end

end Expr

end Phasor
