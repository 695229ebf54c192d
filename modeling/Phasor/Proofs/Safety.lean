import Phasor.Elementary.Platform
import Phasor.Proofs.OperationErrors
import Phasor.Proofs.Operations
import Phasor.Proofs.Reading

/-!
# Trees that are read do not go wrong

`Expr.FailsAt` lists the ways in which a node of a well-formed tree can fail once its children have values. None
of them is a lack of arguments or an operator without a meaning, so no tree that comes out of a text fails
in that way.
-/

namespace Phasor

/-- The functions that have a meaning. -/
def knownFunctions : List String := ["conj", "sqrt", "root"]

theorem applyFunction_unknown [Elementary] {n : String} (h : n ∉ knownFunctions) (args : List Complex) :
    applyFunction n args = .error (.eval (.unknownFunction n)) := by
  simp only [knownFunctions, List.mem_cons, List.not_mem_nil, or_false, not_or] at h
  unfold applyFunction
  split
  · exact absurd rfl h.1
  · exact absurd rfl h.2.1
  · exact absurd rfl h.2.2
  · exact absurd rfl h.1
  · exact absurd rfl h.2.1
  · exact absurd rfl h.2.2
  · rfl

namespace Expr

/-- The ways in which a node of a well-formed tree can fail by itself. -/
inductive FailsAt : Expr → Failure → Prop
  | literal (t : String) : FailsAt (lit t) (.eval (.invalidLiteral t))
  | unbound (n : String) : FailsAt (var n) (.eval (.unbound n))
  | misread (n t : String) : FailsAt (var n) (.eval (.invalidLiteral t))
  | tooLarge (n : String) : FailsAt (var n) (.fault .outOfRange)
  | zeroDivisor (op : String) (l r : Expr) : FailsAt (binary op l r) (.eval .zeroDivisor)
  | negativePowerOfZero (op : String) (l r : Expr) : FailsAt (binary op l r) (.eval .negativePowerOfZero)
  | overflow (op : String) (l r : Expr) : FailsAt (binary op l r) (.eval .overflow)
  | sqrtValue (args : List Expr) : FailsAt (call "sqrt" args) (.fault .badValue)
  | complexDegree (args : List Expr) (z : Complex) : FailsAt (call "root" args) (.eval (.complexDegree z))
  | invalidDegree (args : List Expr) (n : Scalar) : FailsAt (call "root" args) (.eval (.invalidDegree n))
  | negativeRootOfZero (args : List Expr) : FailsAt (call "root" args) (.eval .negativeRootOfZero)
  | rootRange (args : List Expr) : FailsAt (call "root" args) (.fault .outOfRange)
  | degreeValue (args : List Expr) : FailsAt (call "root" args) (.fault .badValue)
  | unknownFunction {n : String} (args : List Expr) (h : n ∉ knownFunctions) :
    FailsAt (call n args) (.eval (.unknownFunction n))

variable {env : Environment} {f : Failure}

theorem failsAt_lit {t : String} (h : (Complex.ofLiteral t).mapError .eval = .error f) : FailsAt (lit t) f := by
  obtain ⟨err, hread, rfl⟩ := mapError_eq_error h
  obtain rfl := Complex.ofLiteral_eq_error hread
  exact .literal t

theorem failsAt_var {n : String} (h : env.value n = .error f) : FailsAt (var n) f := by
  unfold Environment.value at h
  split at h
  · rcases Binding.value_eq_error h with ⟨t, rfl⟩ | rfl
    · exact .misread n t
    · exact .tooLarge n
  · obtain rfl := Except.error.inj h
    exact .unbound n

section

variable [Elementary]

theorem failsAt_binary {op : String} {l r : Expr} {z w : Complex} (hop : isBinarySymbol op = true)
    (h : (applyOperator op z w).mapError .eval = .error f) : FailsAt (binary op l r) f := by
  obtain ⟨err, happly, rfl⟩ := mapError_eq_error h
  rcases applyOperator_eq_error hop happly with rfl | rfl | rfl
  · exact .zeroDivisor op l r
  · exact .negativePowerOfZero op l r
  · exact .overflow op l r

theorem failsAt_root {args : List Expr} {z degree : Complex} (h : applyRoot z degree = .error f) :
    FailsAt (call "root" args) f := by
  rcases applyRoot_eq_error h with rfl | ⟨n, rfl⟩ | rfl | rfl | rfl
  · exact .complexDegree args degree
  · exact .invalidDegree args n
  · exact .negativeRootOfZero args
  · exact .rootRange args
  · exact .degreeValue args

/-- The number of arguments is what makes every argument that a function reads present. -/
theorem failsAt_call {n : String} {args : List Expr} {zs : List Complex} (hargs : zs.length = functionArity n)
    (h : applyFunction n zs = .error f) : FailsAt (call n args) f := by
  by_cases hn : n ∈ knownFunctions
  · simp only [knownFunctions, List.mem_cons, List.not_mem_nil, or_false] at hn
    rcases hn with rfl | rfl | rfl
    · obtain ⟨z, rfl⟩ := List.length_eq_one_iff.1 hargs
      exact absurd h (by simp [applyFunction])
    · obtain ⟨z, rfl⟩ := List.length_eq_one_iff.1 hargs
      obtain ⟨g, hsqrt, rfl⟩ := mapError_eq_error h
      rw [(Complex.sqrt_eq_error hsqrt).2]
      exact .sqrtValue args
    · obtain ⟨z, degree, rfl⟩ := List.length_eq_two.1 hargs
      exact failsAt_root h
  · rw [applyFunction_unknown hn] at h
    obtain rfl := Except.error.inj h
    exact .unknownFunction args hn

theorem failsAt_of_operate {n : Expr} {zs : List Complex} (hn : n.Proper) (hzs : zs.length = n.children.length)
    (h : n.operate env zs = .error f) : FailsAt n f := by
  cases n with
  | lit t => exact failsAt_lit h
  | var n => exact failsAt_var h
  | unary op e =>
    obtain ⟨z, rfl⟩ := List.length_eq_one_iff.1 hzs
    exact absurd h (by simp [operate])
  | binary op l r =>
    obtain ⟨z, w, rfl⟩ := List.length_eq_two.1 hzs
    exact failsAt_binary hn h
  | call n args => exact failsAt_call (hzs.trans hn.2) h

theorem exists_failsAt_of_evaluate {e : Expr} (he : e.WellFormed) (h : e.evaluate env = .error f) :
    ∃ n ∈ e.nodes, FailsAt n f := by
  obtain ⟨n, hn⟩ := exists_failsFirst h
  obtain ⟨zs, hzs, hoperate⟩ := hn.operate
  have hmem := hn.comesTo.mem_nodes
  exact ⟨n, hmem, failsAt_of_operate (he n hmem) (length_of_evaluateAll hzs) hoperate⟩

/-- What a well-formed tree can fail with: a domain error that is not about an operator, or a number that leaves
the number system. -/
def SafeFailure (e : Expr) (f : Failure) : Prop :=
  (∃ err, f = .eval err ∧ (∀ s, err ≠ .unknownOperator s) ∧
    ∀ n, err = .unknownFunction n → n ∉ knownFunctions ∧ ∃ args, call n args ∈ e.nodes) ∨
  f = .fault .outOfRange ∨ f = .fault .badValue

theorem safeFailure_of_evaluate {e : Expr} (he : e.WellFormed) (h : e.evaluate env = .error f) : SafeFailure e f := by
  obtain ⟨n, hn, hfails⟩ := exists_failsAt_of_evaluate he h
  cases hfails with
  | tooLarge n => exact .inr (.inl rfl)
  | rootRange args => exact .inr (.inl rfl)
  | degreeValue args => exact .inr (.inr rfl)
  | sqrtValue args => exact .inr (.inr rfl)
  | unknownFunction args hname =>
    refine .inl ⟨_, rfl, by simp, fun m hm => ?_⟩
    obtain rfl := EvalError.unknownFunction.inj hm
    exact ⟨hname, args, hn⟩
  | _ => exact .inl ⟨_, rfl, by simp, by simp⟩

/-- A text or a list of strings gives a well-formed tree or a parse error, and a text never one about an unknown
operator or an invalid token. Well-formed trees lack no argument and no operation when they are evaluated, and
only a call of a function that is not known is reported as such. -/
theorem reading_is_safe :
    (∀ text, (∃ e, ofText text = .ok e ∧ e.WellFormed) ∨
      ∃ err, ofText text = .error (.parse err) ∧ InfixKind err.kind) ∧
    (∀ tokens, (∃ e, ofTokens tokens = .ok e ∧ e.WellFormed) ∨ ∃ err, ofTokens tokens = .error (.parse err)) ∧
    ∀ (e : Expr) (env : Environment) (f : Failure), e.WellFormed → e.evaluate env = .error f → SafeFailure e f := by
  refine ⟨fun text => ?_, fun tokens => ?_, fun e env f => safeFailure_of_evaluate⟩
  · cases h : ofText text with
    | ok e => exact .inl ⟨e, rfl, wellFormed_of_ofText h⟩
    | error f =>
      obtain ⟨err, rfl, hkind⟩ := ofText_eq_error h
      exact .inr ⟨err, rfl, hkind⟩
  · cases h : ofTokens tokens with
    | ok e => exact .inl ⟨e, rfl, wellFormed_of_ofTokens h⟩
    | error f =>
      obtain ⟨err, rfl, -⟩ := ofTokens_eq_error h
      exact .inr ⟨err, rfl⟩

end

theorem safeFailure_of_unknown_call :
    ofText "2*f(1)" = .ok (binary "*" (lit "2") (call "f" [lit "1"])) ∧
      SafeFailure (binary "*" (lit "2") (call "f" [lit "1"])) (.eval (.unknownFunction "f")) :=
  ⟨by decide +kernel,
    reading_is_safe.2.2 (binary "*" (lit "2") (call "f" [lit "1"])) [] _ (by decide +kernel) (by decide +kernel)⟩

end Expr
end Phasor
