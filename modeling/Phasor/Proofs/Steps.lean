import Mathlib.Data.List.Basic
import Phasor.Postfix
import Phasor.Proofs.Tokens

/-!
# Steps of the operator stack

`Step` says what one token does to the output and the stack of marks, one constructor for each thing
that can happen; `step_eq_ok_iff` shows that it is `step` where `step` does not fail. Claims about runs
of `Postfix.run` go by cases on it.
-/

namespace Phasor.Postfix

/-! ### Marks above a parenthesis -/

theorem untilParen_append {popped : List Mark} (h : .paren ∉ popped) (marks : List Mark) :
    untilParen (popped ++ .paren :: marks) = (popped, .paren :: marks) := by
  have hp : ∀ m ∈ popped, (m != .paren) = true := fun m hm => bne_iff_ne.2 fun hmp => h (hmp ▸ hm)
  unfold untilParen
  rw [List.takeWhile_append_of_pos hp, List.dropWhile_append_of_pos hp]
  simp

theorem untilParen_of_not_mem {marks : List Mark} (h : .paren ∉ marks) : untilParen marks = (marks, []) := by
  have hp : ∀ m ∈ marks, (m != .paren) = true := fun m hm => bne_iff_ne.2 fun hmp => h (hmp ▸ hm)
  unfold untilParen
  rw [List.takeWhile_eq_self_iff.2 hp, List.dropWhile_eq_nil_iff.2 hp]

/-! ### Operators that wait -/

theorem precedence_le {s : String} {o : Operator} (h : Operator.ofSymbol? s = some o) : o.precedence ≤ 6 := by
  unfold Operator.ofSymbol? at h
  split at h <;> cases h <;> decide

theorem ofToken?_operator {t : String} {o : Operator} {b : Bool} (h : isBinarySymbol t = true)
    (ho : Operator.ofSymbol? t = some o) (hb : t = "-" → b = false) :
    Operator.ofToken? b t = some (t, o) := by
  have hneg : ¬ (decide (t = "-") && b) = true := by
    rw [Bool.and_eq_true, decide_eq_true_eq]
    rintro ⟨ht, hb'⟩
    rw [hb ht] at hb'
    exact absurd hb' (by decide)
  unfold Operator.ofToken?
  dsimp only
  rw [if_neg hneg, if_pos h, ho]
  rfl

theorem ofToken?_cases {t symbol : String} {o : Operator} {b : Bool}
    (h : Operator.ofToken? b t = some (symbol, o)) :
    (t = "-" ∧ b = true ∧ symbol = Operator.negation ∧ o = ⟨6, true⟩) ∨
      (isBinarySymbol t = true ∧ Operator.ofSymbol? t = some o ∧ symbol = t ∧ (t = "-" → b = false)) := by
  unfold Operator.ofToken? at h
  dsimp only at h
  split at h
  · rename_i ht
    split at h
    · rename_i hneg
      rw [Bool.and_eq_true, decide_eq_true_eq] at hneg
      obtain ⟨rfl, rfl⟩ := Prod.mk.inj (Option.some.inj h)
      exact .inl ⟨hneg.1, hneg.2, rfl, rfl⟩
    · rename_i hneg
      obtain ⟨o', ho', heq⟩ := Option.map_eq_some_iff.1 h
      obtain ⟨rfl, rfl⟩ := Prod.mk.inj heq
      refine .inr ⟨ht, ho', rfl, fun ht' => ?_⟩
      simpa [ht'] using hneg
  · exact absurd h (by simp)

/-- Nothing binds tighter than negation. -/
theorem waits_negation (m : Mark) : waits ⟨6, true⟩ m = false := by
  cases m with
  | paren => rfl
  | fn n => rfl
  | op s =>
    show (Operator.ofSymbol? s).any (Operator.yieldsTo ⟨6, true⟩) = false
    cases h : Operator.ofSymbol? s with
    | none => rfl
    | some o =>
      have := precedence_le h
      simp [Operator.yieldsTo]; omega

theorem paren_not_mem_takeWhile (o : Operator) (marks : List Mark) : .paren ∉ marks.takeWhile (waits o) :=
  fun h => absurd (List.mem_takeWhile_imp h) (by simp [waits])

theorem fn_not_mem_takeWhile (o : Operator) (marks : List Mark) (n : String) : .fn n ∉ marks.takeWhile (waits o) :=
  fun h => absurd (List.mem_takeWhile_imp h) (by simp [waits])

theorem pushOperator_append {popped marks : List Mark} {o : Operator} (hp : ∀ m ∈ popped, waits o m = true)
    (hm : ∀ m ∈ marks.head?, waits o m = false) (out : List Item) (b : Bool) (symbol : String) :
    pushOperator ⟨out, popped ++ marks, b⟩ symbol o = ⟨out ++ popped.map .mark, .op symbol :: marks, true⟩ := by
  obtain ⟨htake, hdrop⟩ := span_append hp hm
  unfold pushOperator
  rw [htake, hdrop]

theorem pushOperator_negation (s : State) :
    pushOperator s Operator.negation ⟨6, true⟩ = ⟨s.output, .op Operator.negation :: s.marks, true⟩ := by
  have h : pushOperator ⟨s.output, [] ++ s.marks, s.operandNext⟩ Operator.negation ⟨6, true⟩ = _ :=
    pushOperator_append (by simp) (fun m _ => waits_negation m) _ _ _
  simpa using h

/-! ### Steps -/

/-- What the token `t` does, the token after it being `next`. -/
inductive Step (next : Option String) : State → String → State → Prop
  | number {s : State} {t : String} (h : Token.isNumber t = true) :
    Step next s t ⟨s.output ++ [.lit t], s.marks, false⟩
  | function {s : State} {t : String} (h : Token.isIdentifier t = true) (hn : next = some "(") :
    Step next s t ⟨s.output, .fn t :: s.marks, false⟩
  | name {s : State} {t : String} (h : Token.isIdentifier t = true) (hn : next ≠ some "(") :
    Step next s t ⟨s.output ++ [.var t], s.marks, false⟩
  | comma {out : List Item} {popped marks : List Mark} {b : Bool} (h : .paren ∉ popped) :
    Step next ⟨out, popped ++ .paren :: marks, b⟩ "," ⟨out ++ popped.map .mark, .paren :: marks, true⟩
  | opening {s : State} : Step next s "(" ⟨s.output, .paren :: s.marks, true⟩
  | closing {out : List Item} {popped marks : List Mark} {b : Bool} (h : .paren ∉ popped)
    (hm : ∀ n, marks.head? ≠ some (.fn n)) :
    Step next ⟨out, popped ++ .paren :: marks, b⟩ ")" ⟨out ++ popped.map .mark, marks, false⟩
  | closingCall {out : List Item} {popped marks : List Mark} {b : Bool} {n : String} (h : .paren ∉ popped) :
    Step next ⟨out, popped ++ .paren :: .fn n :: marks, b⟩ ")"
      ⟨out ++ popped.map .mark ++ [.mark (.fn n)], marks, false⟩
  | negation {s : State} (h : s.operandNext = true) :
    Step next s "-" ⟨s.output, .op Operator.negation :: s.marks, true⟩
  | operator {s : State} {t : String} {o : Operator} (h : isBinarySymbol t = true)
    (ho : Operator.ofSymbol? t = some o) (hb : t = "-" → s.operandNext = false) :
    Step next s t (pushOperator s t o)

/-! ### Steps and `step` -/

theorem step_of_isIdentifier {s : State} {t : String} {next : Option String}
    (h : Token.isIdentifier t = true) : step s t next =
      if next = some "(" then .ok ⟨s.output, .fn t :: s.marks, false⟩
      else .ok ⟨s.output ++ [.var t], s.marks, false⟩ := by
  simp only [step, Token.isNumber_of_isIdentifier h, h, Bool.false_eq_true, ↓reduceIte]

theorem step_of_isBinarySymbol {s : State} {t : String} {next : Option String} (h : isBinarySymbol t = true) :
    step s t next = match Operator.ofToken? s.operandNext t with
      | some (symbol, o) => .ok (pushOperator s symbol o)
      | none =>
        if Token.looksLikeOperator t then .error (.unknownOperator t) else .error (.invalidToken t) := by
  rcases isBinarySymbol_iff.1 h with rfl | rfl | rfl | rfl | rfl | rfl <;> rfl

theorem Step.step_eq {next : Option String} {s s' : State} {t : String} (h : Step next s t s') :
    step s t next = .ok s' := by
  cases h with
  | number h => simp [step, h]
  | function h hn => rw [step_of_isIdentifier h, if_pos hn]
  | name h hn => rw [step_of_isIdentifier h, if_neg hn]
  | comma h =>
    show Postfix.comma _ = _
    simp only [Postfix.comma, untilParen_append h]
  | opening => rfl
  | closing h hm =>
    show close _ = _
    simp only [close, untilParen_append h]
    split
    · rename_i heq; exact absurd heq (by simp)
    · rename_i heq
      obtain ⟨-, -, rfl⟩ : _ ∧ _ ∧ _ := by simpa using heq
      exact absurd rfl (hm _)
    · rename_i heq
      obtain ⟨rfl, -, rfl⟩ : _ ∧ _ ∧ _ := by simpa using heq
      rfl
  | closingCall h =>
    show close _ = _
    simp only [close, untilParen_append h]
  | negation h =>
    rw [step_of_isBinarySymbol rfl, h]
    exact congrArg Except.ok (pushOperator_negation s)
  | operator h ho hb =>
    rw [step_of_isBinarySymbol h, ofToken?_operator h ho hb]

theorem step_of_comma {next : Option String} {s s' : State} (h : comma s = .ok s') : Step next s "," s' := by
  obtain ⟨out, marks, b⟩ := s
  by_cases hp : .paren ∈ marks
  · obtain ⟨popped, marks, rfl, hpopped⟩ := List.eq_append_cons_of_mem hp
    simp only [comma, untilParen_append hpopped] at h
    obtain rfl := Except.ok.inj h
    exact .comma hpopped
  · simp [comma, untilParen_of_not_mem hp] at h

theorem step_of_close {next : Option String} {s s' : State} (h : close s = .ok s') : Step next s ")" s' := by
  obtain ⟨out, marks, b⟩ := s
  by_cases hp : .paren ∈ marks
  · obtain ⟨popped, marks, rfl, hpopped⟩ := List.eq_append_cons_of_mem hp
    simp only [close, untilParen_append hpopped] at h
    split at h
    · exact absurd h (by simp)
    · rename_i heq
      obtain ⟨rfl, -, rfl⟩ : _ ∧ _ ∧ _ := by simpa using heq
      obtain rfl := Except.ok.inj h
      exact .closingCall hpopped
    · rename_i hfn heq
      obtain ⟨rfl, -, rfl⟩ : _ ∧ _ ∧ _ := by simpa using heq
      obtain rfl := Except.ok.inj h
      exact .closing hpopped fun n hn => by
        obtain ⟨marks, rfl⟩ := List.head?_eq_some_iff.1 hn
        exact hfn _ _ rfl
  · simp [close, untilParen_of_not_mem hp] at h

theorem step_eq_ok_iff {next : Option String} {s s' : State} {t : String} :
    step s t next = .ok s' ↔ Step next s t s' := by
  refine ⟨fun h => ?_, Step.step_eq⟩
  unfold step at h
  split at h
  · obtain rfl := Except.ok.inj h
    exact .number ‹_›
  split at h
  · split at h
    · obtain rfl := Except.ok.inj h
      exact .function ‹_› ‹_›
    · obtain rfl := Except.ok.inj h
      exact .name ‹_› ‹_›
  split at h
  · subst t; exact step_of_comma h
  split at h
  · subst t
    obtain rfl := Except.ok.inj h
    exact .opening
  split at h
  · subst t; exact step_of_close h
  split at h
  · rename_i ho
    obtain rfl := Except.ok.inj h
    rcases ofToken?_cases ho with ⟨rfl, hb, rfl, rfl⟩ | ⟨ht, ho, rfl, hb⟩
    · rw [pushOperator_negation]
      exact .negation hb
    · exact .operator ht ho hb
  · split at h <;> exact absurd h (by simp)

theorem run_cons {s s' : State} {t : String} {ts : List String} (h : Step ts.head? s t s') :
    run s (t :: ts) = run s' ts := by
  rw [run, h.step_eq]

theorem run_cons_eq_ok_iff {s s' : State} {t : String} {ts : List String} :
    run s (t :: ts) = .ok s' ↔ ∃ s₁, Step ts.head? s t s₁ ∧ run s₁ ts = .ok s' := by
  refine ⟨fun h => ?_, fun ⟨s₁, hs, h⟩ => by rw [run_cons hs, h]⟩
  rw [run] at h
  split at h
  · exact absurd h (by simp)
  · rename_i s₁ hs
    exact ⟨s₁, step_eq_ok_iff.1 hs, h⟩

end Phasor.Postfix
