import Phasor.Proofs.Conservation
import Phasor.Proofs.Heights
import Phasor.Proofs.Scanning

/-!
# What reading can give

Every item of a listing stands for a token, so it is as an item should be (`Item.Proper`). Such items build
well-formed trees (`wellFormed_of_ofTokens`), or they leave too few operands or more than one tree. The
errors of the first pass are those of parentheses and commas, and those of strings that are no tokens
(`arrange_eq_error`).
-/

namespace Phasor

/-- The text or the name is as it is in a node of a well-formed tree. -/
def Item.Proper : Item → Prop
  | .lit t => Token.isNumber t = true
  | .var n => Token.isIdentifier n = true
  | .mark (.fn n) => Token.isIdentifier n = true
  | .mark (.op s) => s = Operator.negation ∨ isBinarySymbol s = true
  | .mark .paren => False

theorem Item.Proper.known {i : Item} (h : i.Proper) : i.Known := by
  cases i with
  | lit t => trivial
  | var n => trivial
  | mark m =>
    cases m with
    | paren => exact h
    | op s => exact h
    | fn n => trivial

theorem Place.proper_of_item? {p : Place} {i : Item} (h : p.item? = some i) : i.Proper := by
  unfold Place.item? at h
  split at h
  · obtain rfl := Option.some.inj h
    assumption
  split at h
  · obtain rfl := Option.some.inj h
    split <;> assumption
  split at h
  · obtain rfl := Option.some.inj h
    split
    · exact .inl rfl
    · exact .inr ‹_›
  · exact absurd h (by simp)

theorem Expr.proper_of_item {e : Expr} (hitem : e.item.Proper) (he : e.Buildable) : e.Proper := by
  cases e with
  | lit t => exact hitem
  | var n => exact hitem
  | unary op e => exact he
  | binary op l r => exact he
  | call n args => exact ⟨hitem, he⟩

namespace Postfix

theorem proper_of_arrange {ts : List String} {p : List Item} (h : arrange ts = .ok p) : ∀ i ∈ p, i.Proper := by
  obtain ⟨hperm, -⟩ := arrange_carries h
  intro i hi
  obtain ⟨q, -, hq⟩ := List.mem_filterMap.1 (hperm.mem_iff.1 hi)
  exact q.proper_of_item? hq

theorem known_of_arrange {ts : List String} {p : List Item} (h : arrange ts = .ok p) : ∀ i ∈ p, i.Known :=
  fun i hi => (proper_of_arrange h i hi).known

/-! ### Tokens that are read -/

theorem Step.isToken {s s' : State} {t : String} {next : Option String} (h : Step next s t s') : Token.IsToken t := by
  cases h with
  | number h => exact .inl h
  | function h hn => exact .inr (.inl h)
  | name h hn => exact .inr (.inl h)
  | comma h => exact .inr (.inr (.inr (.inr (.inr rfl))))
  | opening => exact .inr (.inr (.inr (.inl rfl)))
  | closing h hm => exact .inr (.inr (.inr (.inr (.inl rfl))))
  | closingCall h => exact .inr (.inr (.inr (.inr (.inl rfl))))
  | negation h => exact .inr (.inr (.inl rfl))
  | operator h ho hb => exact .inr (.inr (.inl h))

theorem isToken_of_run {s s' : State} {ts : List String} (h : run s ts = .ok s') : ∀ t ∈ ts, Token.IsToken t := by
  induction ts generalizing s with
  | nil => exact fun t ht => absurd ht List.not_mem_nil
  | cons t ts ih =>
    obtain ⟨s₁, hstep, hrun⟩ := run_cons_eq_ok_iff.1 h
    exact List.forall_mem_cons.2 ⟨hstep.isToken, ih hrun⟩

theorem isToken_of_arrange {ts : List String} {p : List Item} (h : arrange ts = .ok p) : ∀ t ∈ ts, Token.IsToken t := by
  unfold arrange at h
  split at h
  · exact absurd h (by simp)
  · rename_i s hrun
    exact isToken_of_run hrun

/-! ### Errors of the first pass -/

/-- Something is wrong with a comma or a parenthesis. -/
def IsNestingError (err : ParseError) : Prop := err = .strayComma ∨ err = .unopened ∨ err = .unclosed

/-- The error is about a string that no text is cut into. -/
def IsTokenError (t : String) (err : ParseError) : Prop :=
  ¬ Token.IsToken t ∧ (err = .unknownOperator t ∨ err = .invalidToken t)

theorem comma_eq_error {s : State} {err : ParseError} (h : comma s = .error err) : err = .strayComma := by
  unfold comma at h
  split at h
  · exact (Except.error.inj h).symm
  · exact absurd h (by simp)

theorem close_eq_error {s : State} {err : ParseError} (h : close s = .error err) : err = .unopened := by
  unfold close at h
  split at h
  · exact (Except.error.inj h).symm
  · exact absurd h (by simp)
  · exact absurd h (by simp)

/-- Every binary symbol stands for an operator. -/
theorem isSome_ofToken? {t : String} (h : isBinarySymbol t = true) (b : Bool) :
    (Operator.ofToken? b t).isSome = true := by
  rcases isBinarySymbol_iff.1 h with rfl | rfl | rfl | rfl | rfl | rfl <;> cases b <;> rfl

theorem step_eq_error {s : State} {t : String} {next : Option String} {err : ParseError}
    (h : step s t next = .error err) : IsNestingError err ∨ IsTokenError t err := by
  unfold step at h
  split at h
  · exact absurd h (by simp)
  split at h
  · split at h <;> exact absurd h (by simp)
  split at h
  · exact .inl (.inl (comma_eq_error h))
  split at h
  · exact absurd h (by simp)
  split at h
  · exact .inl (.inr (.inl (close_eq_error h)))
  split at h
  · exact absurd h (by simp)
  · rename_i hnumber hname hcomma hopening hclosing _ hoperator
    refine .inr ⟨?_, ?_⟩
    · rintro (ht | ht | ht | ht | ht | ht)
      · exact hnumber ht
      · exact hname ht
      · have := isSome_ofToken? ht s.operandNext
        rw [hoperator] at this
        exact absurd this (by decide)
      · exact hopening ht
      · exact hclosing ht
      · exact hcomma ht
    · split at h
      · exact .inl (Except.error.inj h).symm
      · exact .inr (Except.error.inj h).symm

theorem run_eq_error {s : State} {ts : List String} {err : ParseError} (h : run s ts = .error err) :
    IsNestingError err ∨ ∃ t ∈ ts, IsTokenError t err := by
  induction ts generalizing s with
  | nil => exact absurd h (by simp [run])
  | cons t ts ih =>
    rw [run] at h
    split at h
    · rename_i hstep
      obtain rfl := Except.error.inj h
      exact (step_eq_error hstep).imp_right fun ht => ⟨t, List.mem_cons_self .., ht⟩
    · rcases ih h with hnesting | ⟨t', ht', herr⟩
      · exact .inl hnesting
      · exact .inr ⟨t', List.mem_cons_of_mem _ ht', herr⟩

theorem arrange_eq_error {ts : List String} {err : ParseError} (h : arrange ts = .error err) :
    IsNestingError err ∨ ∃ t ∈ ts, IsTokenError t err := by
  unfold arrange at h
  split at h
  · rename_i hrun
    obtain rfl := Except.error.inj h
    exact run_eq_error hrun
  · unfold finish at h
    split at h
    · exact .inl (.inr (.inr (Except.error.inj h).symm))
    · exact absurd h (by simp)

end Postfix

/-! ### Trees -/

namespace Expr

open Postfix

theorem wellFormed_of_ofTokens {ts : List String} {e : Expr} (h : ofTokens ts = .ok e) : e.WellFormed := by
  obtain ⟨harrange, hbuildable⟩ := ofTokens_eq_ok h
  intro n hn
  exact proper_of_item (proper_of_arrange harrange _ (List.mem_map_of_mem hn)) (hbuildable n hn)

theorem ofTokens_eq_error {ts : List String} {f : Failure} (h : ofTokens ts = .error f) :
    ∃ err, f = .parse err ∧ ((IsNestingError err ∨ (∃ c, err = .tooFewOperands c) ∨ err = .notOneExpression) ∨
      ∃ t ∈ ts, IsTokenError t err) := by
  unfold ofTokens at h
  split at h
  · rename_i err harrange
    refine ⟨err, (Except.error.inj h).symm, ?_⟩
    exact (arrange_eq_error harrange).imp_left .inl
  · rename_i p harrange
    rcases build_eq_error (known_of_arrange harrange) h with ⟨c, rfl⟩ | rfl
    · exact ⟨_, rfl, .inl (.inr (.inl ⟨c, rfl⟩))⟩
    · exact ⟨_, rfl, .inl (.inr (.inr rfl))⟩

/-- The kinds of errors in infix text. -/
inductive InfixKind : ParseError.Kind → Prop
  | lexical : InfixKind .lexical
  | unexpectedComma : InfixKind .unexpectedComma
  | unbalancedParentheses : InfixKind .unbalancedParentheses
  | insufficientArguments : InfixKind .insufficientArguments
  | malformedExpression : InfixKind .malformedExpression

theorem wellFormed_of_ofText {text : String} {e : Expr} (h : ofText text = .ok e) : e.WellFormed := by
  unfold ofText at h
  split at h
  · exact absurd h (by simp)
  · exact wellFormed_of_ofTokens h

theorem ofText_eq_error {text : String} {f : Failure} (h : ofText text = .error f) :
    ∃ err, f = .parse err ∧ InfixKind err.kind := by
  unfold ofText at h
  split at h
  · rename_i err hscan
    obtain ⟨i, c, -, rfl⟩ := Token.exists_of_scan_eq_error hscan
    exact ⟨_, (Except.error.inj h).symm, .lexical⟩
  · rename_i ts hscan
    obtain ⟨err, rfl, (herr | ⟨c, rfl⟩ | rfl) | ⟨t, ht, hnot, -⟩⟩ := ofTokens_eq_error h
    · refine ⟨err, rfl, ?_⟩
      rcases herr with rfl | rfl | rfl
      · exact .unexpectedComma
      · exact .unbalancedParentheses
      · exact .unbalancedParentheses
    · exact ⟨_, rfl, .insufficientArguments⟩
    · exact ⟨_, rfl, .malformedExpression⟩
    · exact absurd (Token.isToken_of_scan hscan t ht) hnot

end Expr
end Phasor
