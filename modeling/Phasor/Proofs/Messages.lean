import Phasor.Failure
import Phasor.Proofs.Tokens

/-!
# What messages tell

The first two characters of a message tell what kind of failure it is about, and a check without an end repeats the
error of its last draw behind the number of its draws. So failures that have an unbound variable as their cause do not
share a message with any others (`Failure.message_ne_of_unbound`).
-/

namespace Phasor

/-- The evaluation error that a failure reports, its own or that of the last draw of a check. -/
def Failure.cause? : Failure → Option EvalError
  | eval e | inconclusive _ e => some e
  | parse _ | fault _ => none

/-- There is a variable without a value, and the failure says so. -/
def Failure.IsUnbound (f : Failure) : Prop := ∃ x, f.cause? = some (.unbound x)

/-! ### The first two characters -/

def opening (s : String) : List Char := s.toList.take 2

/-- How messages open that are neither about an unbound variable nor about a check. -/
def openings : List (List Char) :=
  [['I', 'n'], ['A', 'r'], ['U', 'n'], ['E', 'x'], ['T', 'o'], ['O', 'p'], ['r', 'o'], ['D', 'i'], ['Z', 'e'],
    ['N', 'e'], ['P', 'o']]

theorem opening_append {s : String} (h : (opening s).length = 2) (t : String) : opening (s ++ t) = opening s := by
  rw [opening, List.length_take] at h
  rw [opening, String.toList_append, List.take_append_of_le_length (by omega), opening]

theorem opening_append_mem {s : String} (h : opening s ∈ openings) (t : String) : opening (s ++ t) ∈ openings := by
  have hlength : ∀ o ∈ openings, o.length = 2 := by decide
  rwa [opening_append (hlength _ h)]

theorem ParseError.opening_text (e : ParseError) : opening e.text ∈ openings := by
  cases e with
  | unknownCharacter | tooFewOperands | tooManyOperands => exact opening_append_mem (by decide +kernel) _
  | trailingTokens =>
    exact opening_append_mem (opening_append_mem (opening_append_mem (by decide +kernel) _) _) _
  | unknownOperator => exact (by decide +kernel : opening "Unknown operator" ∈ openings)
  | invalidToken => exact (by decide +kernel : opening "Invalid token" ∈ openings)
  | invalidHead => exact (by decide +kernel : opening "Invalid operator or function name" ∈ openings)
  | _ => decide +kernel

theorem ParseError.opening_message (e : ParseError) : opening e.message ∈ openings := by
  unfold message
  split
  · exact opening_append_mem (opening_append_mem e.opening_text _) _
  · exact e.opening_text

theorem EvalError.opening_message {e : EvalError} (h : ∀ x, e ≠ .unbound x) : opening e.message ∈ openings := by
  cases e with
  | unbound x => exact absurd rfl (h x)
  | invalidLiteral | unknownFunction | unknownOperator | complexDegree | invalidDegree =>
    exact opening_append_mem (by decide +kernel) _
  | _ => decide +kernel

theorem EvalError.opening_message_unbound (x : String) : opening (unbound x).message = ['V', 'a'] :=
  opening_append (s := "Variable has no value: ") (by decide +kernel) x

theorem EvalError.opening_message_mem (e : EvalError) : opening e.message ∈ ['V', 'a'] :: openings := by
  by_cases h : ∃ x, e = .unbound x
  · obtain ⟨x, rfl⟩ := h
    exact List.mem_cons.2 (.inl (opening_message_unbound x))
  · exact List.mem_cons_of_mem _ (opening_message (not_exists.1 h))

/-! ### Failures -/

namespace Failure

def inconclusiveText (n : Nat) (e : EvalError) : String :=
  "Equivalence inconclusive: " ++ toString n ++
    " sampled environments failed to evaluate (last error: " ++ e.message ++ ")"

theorem opening_inconclusiveText (n : Nat) (e : EvalError) : opening (inconclusiveText n e) = ['E', 'q'] := by
  have hopening : opening "Equivalence inconclusive: " = ['E', 'q'] := by decide +kernel
  unfold inconclusiveText
  rw [String.append_assoc, String.append_assoc, String.append_assoc, opening_append (by rw [hopening]; rfl), hopening]

/-- A number ends where its digits do, so what stands behind it and a text without a digit in front can be made out. -/
theorem cancel_digits {n n' : Nat} {c : Char} {m s s' : String} (hm : m.toList.head? = some c)
    (hc : c.isDigit = false) (h : toString n ++ (m ++ s) = toString n' ++ (m ++ s')) : s = s' := by
  have hdigits : ∀ k : Nat, ∀ d ∈ (toString k).toList, d.isDigit = true := by
    intro k d hd
    have hlist : (toString k).toList = Nat.toDigits 10 k := Nat.toList_repr
    rw [hlist] at hd
    exact Nat.isDigit_of_mem_toDigits (by omega) (by omega) hd
  have hmid : ∀ r : List Char, ∀ d ∈ (m.toList ++ r).head?, d.isDigit = false := by
    intro r d hd
    rw [List.head?_append, hm] at hd
    obtain rfl := Option.some.inj hd
    exact hc
  have hlists := congrArg (fun t => t.toList.dropWhile Char.isDigit) h
  simp only [String.toList_append] at hlists
  rw [(span_append (hdigits n) (hmid _)).2, (span_append (hdigits n') (hmid _)).2] at hlists
  exact String.toList_inj.1 (List.append_cancel_left hlists)

theorem message_of_inconclusiveText {n n' : Nat} {e e' : EvalError}
    (h : inconclusiveText n e = inconclusiveText n' e') : e.message = e'.message := by
  have hblank : " sampled environments failed to evaluate (last error: ".toList.head? = some ' ' := by decide +kernel
  unfold inconclusiveText at h
  simp only [String.append_assoc, String.append_right_inj] at h
  have htail := cancel_digits hblank rfl h
  exact (String.append_left_inj ")").1 htail

theorem not_mem_openings : ['V', 'a'] ∉ openings ∧ ['E', 'q'] ∉ ['V', 'a'] :: openings := by decide

theorem opening_message_ne {f : Failure} (h : ¬ f.IsUnbound) : opening (f.message?.getD "") ≠ ['V', 'a'] := by
  intro hopening
  cases f with
  | parse e => exact not_mem_openings.1 (hopening ▸ e.opening_message)
  | eval e => exact not_mem_openings.1 (hopening ▸ EvalError.opening_message fun x he => h ⟨x, congrArg some he⟩)
  | inconclusive n e =>
    rw [show opening ((inconclusive n e).message?.getD "") = _ from opening_inconclusiveText n e] at hopening
    exact absurd hopening (by simp)
  | fault f => exact absurd (show opening "" = _ from hopening) (by decide +kernel)

/-- Only checks open like this. -/
theorem inconclusive_of_opening {f : Failure} (h : opening (f.message?.getD "") = ['E', 'q']) :
    ∃ n e, f = .inconclusive n e := by
  cases f with
  | parse e => exact absurd (List.mem_cons_of_mem _ (h ▸ e.opening_message)) not_mem_openings.2
  | eval e => exact absurd (h ▸ e.opening_message_mem) not_mem_openings.2
  | inconclusive n e => exact ⟨n, e, rfl⟩
  | fault f => exact absurd (show opening "" = _ from h) (by decide +kernel)

/-- A message says that a variable has no value only where this is the cause. -/
theorem message_ne_of_unbound {f g : Failure} (hf : ¬ f.IsUnbound) (hg : g.IsUnbound) :
    f.message?.getD "" ≠ g.message?.getD "" := by
  intro h
  obtain ⟨x, hx⟩ := hg
  cases g with
  | parse e | fault e => exact absurd hx (by simp [cause?])
  | eval e =>
    obtain rfl : e = .unbound x := Option.some.inj hx
    exact opening_message_ne hf (h ▸ EvalError.opening_message_unbound x)
  | inconclusive n e =>
    obtain rfl : e = .unbound x := Option.some.inj hx
    have hopening := (congrArg opening h).trans (opening_inconclusiveText n (.unbound x))
    obtain ⟨n', e, rfl⟩ := inconclusive_of_opening hopening
    have hmessage : e.message = (EvalError.unbound x).message := message_of_inconclusiveText h
    have hmem := EvalError.opening_message fun y he => hf ⟨y, congrArg some he⟩
    rw [hmessage, EvalError.opening_message_unbound] at hmem
    exact not_mem_openings.1 hmem

end Failure

end Phasor
