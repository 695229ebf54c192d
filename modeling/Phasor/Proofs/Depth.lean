import Phasor.Proofs.FirstFailure
import Phasor.Proofs.Reading

/-!
# The depth of parentheses decides the first pass

The first pass has no counter. It looks for parentheses on its stack of marks, and the marks of parentheses on that stack
are as many as are open (`Step.depth_eq`). So whether a token is refused depends on the token and on the depth at which
it stands (`step_eq_error_iff`), and the outcome of the pass is that of a scan from the left which counts parentheses and
stops at the first offence (`arrange_decided_by_depth`).
-/

namespace Phasor.Postfix

open Text

/-! ### Depths and offences -/

/-- The parentheses that are opened among the tokens less those that are closed. -/
def depth (ts : List String) : Int := ts.count "(" - ts.count ")"

/-- No character of the string is one of names, numbers or blanks, and there is one. -/
def OperatorLike (t : String) : Prop :=
  t ≠ "" ∧ ∀ c ∈ t.toList, ¬ (isAlphanumeric c = true ∨ c = '_' ∨ isBlank c = true)

/-- The string `t` cannot stand at the depth `d`. -/
inductive Offends (d : Int) : String → ParseError → Prop
  | closing (hd : d = 0) : Offends d ")" .unopened
  | comma (hd : d = 0) : Offends d "," .strayComma
  | operator {t : String} (ht : ¬ Token.IsToken t) (h : OperatorLike t) : Offends d t (.unknownOperator t)
  | other {t : String} (ht : ¬ Token.IsToken t) (h : ¬ OperatorLike t) : Offends d t (.invalidToken t)

/-- The string `t` offends after the tokens `before`, which begin at the depth `d`. -/
def Refused (d : Int) (before : List String) (t : String) : Prop := ∃ err, Offends (d + depth before) t err

variable {s s' : State} {t : String} {ts : List String} {next : Option String} {err : ParseError} {d : Int}

theorem depth_cons (t : String) (ts : List String) : depth (t :: ts) = depth [t] + depth ts := by
  simp only [depth, List.count_cons, List.count_nil]
  omega

theorem depth_of_ne (hopening : t ≠ "(") (hclosing : t ≠ ")") : depth [t] = 0 := by
  simp [depth, hopening, hclosing]

theorem depth_of_not_isSeparator (h : Token.isNumber t = true ∨ Token.isIdentifier t = true ∨ isBinarySymbol t = true) :
    depth [t] = 0 :=
  depth_of_ne (Token.ne_separator h (.inl rfl)) (Token.ne_separator h (.inr (.inl rfl)))

theorem refused_cons (d : Int) (t : String) :
    (fun before => Refused d (t :: before)) = Refused (d + depth [t]) := by
  funext before t'
  rw [Refused, Refused, depth_cons, add_assoc]

theorem looksLikeOperator_iff : Token.looksLikeOperator t = true ↔ OperatorLike t := by
  simp [Token.looksLikeOperator, OperatorLike, and_assoc]

/-! ### Marks of parentheses -/

/-- The parentheses that wait on the stack. -/
def State.depth (s : State) : Int := s.marks.count .paren

theorem count_append_of_not_mem {popped : List Mark} (h : .paren ∉ popped) (marks : List Mark) :
    (popped ++ marks).count .paren = marks.count .paren := by
  rw [List.count_append, List.count_eq_zero_of_not_mem h, Nat.zero_add]

/-- An operator takes no parenthesis off the stack. -/
theorem depth_pushOperator (s : State) (symbol : String) (o : Operator) :
    (pushOperator s symbol o).depth = s.depth := by
  have hmarks := count_append_of_not_mem (paren_not_mem_takeWhile o s.marks) (s.marks.dropWhile (waits o))
  rw [List.takeWhile_append_dropWhile] at hmarks
  show ((Mark.op symbol :: s.marks.dropWhile (waits o)).count .paren : Int) = s.marks.count .paren
  rw [List.count_cons_of_ne (by simp), hmarks]

/-- The marks of parentheses follow the depth of the tokens. -/
theorem Step.depth_eq (h : Step next s t s') : s'.depth = s.depth + Postfix.depth [t] := by
  cases h with
  | number h =>
    rw [depth_of_not_isSeparator (.inl h), add_zero]
    rfl
  | function h hn =>
    rw [depth_of_not_isSeparator (.inr (.inl h)), add_zero]
    show ((Mark.fn t :: s.marks).count .paren : Int) = s.marks.count .paren
    rw [List.count_cons_of_ne (by simp)]
  | name h hn =>
    rw [depth_of_not_isSeparator (.inr (.inl h)), add_zero]
    rfl
  | @comma out popped marks b h =>
    show ((Mark.paren :: marks).count .paren : Int) = (popped ++ .paren :: marks).count .paren + 0
    rw [count_append_of_not_mem h, add_zero]
  | opening =>
    show ((Mark.paren :: s.marks).count .paren : Int) = s.marks.count .paren + 1
    rw [List.count_cons_self, Int.natCast_add, Int.natCast_one]
  | @closing out popped marks b h hm =>
    show (marks.count .paren : Int) = (popped ++ .paren :: marks).count .paren + -1
    rw [count_append_of_not_mem h, List.count_cons_self]
    omega
  | @closingCall out popped marks b n h =>
    show (marks.count .paren : Int) = (popped ++ .paren :: .fn n :: marks).count .paren + -1
    rw [count_append_of_not_mem h, List.count_cons_self, List.count_cons_of_ne (by simp)]
    omega
  | negation h =>
    show ((Mark.op Operator.negation :: s.marks).count .paren : Int) = s.marks.count .paren + 0
    rw [List.count_cons_of_ne (by simp), add_zero]
  | operator h ho hb => rw [depth_pushOperator, depth_of_not_isSeparator (.inr (.inr h)), add_zero]

/-! ### Steps that fail -/

theorem depth_eq_zero_iff : s.depth = 0 ↔ .paren ∉ s.marks := by
  rw [State.depth, Int.natCast_eq_zero, List.count_eq_zero]

theorem comma_eq_error_iff : comma s = .error err ↔ s.depth = 0 ∧ err = .strayComma := by
  rw [depth_eq_zero_iff]
  constructor
  · intro h
    refine ⟨fun hparen => ?_, comma_eq_error h⟩
    obtain ⟨popped, marks, hmarks, hpopped⟩ := List.eq_append_cons_of_mem hparen
    simp only [comma, hmarks, untilParen_append hpopped] at h
    exact absurd h (by simp)
  · rintro ⟨hparen, rfl⟩
    simp only [comma, untilParen_of_not_mem hparen]

theorem close_eq_error_iff : close s = .error err ↔ s.depth = 0 ∧ err = .unopened := by
  rw [depth_eq_zero_iff]
  constructor
  · intro h
    refine ⟨fun hparen => ?_, close_eq_error h⟩
    obtain ⟨popped, marks, hmarks, hpopped⟩ := List.eq_append_cons_of_mem hparen
    simp only [close, hmarks, untilParen_append hpopped] at h
    split at h
    · rename_i heq
      exact absurd heq (by simp)
    · exact absurd h (by simp)
    · exact absurd h (by simp)
  · rintro ⟨hparen, rfl⟩
    simp only [close, untilParen_of_not_mem hparen]

/-- What stands at no depth. -/
theorem offends_of_not_isToken (h : ¬ Token.IsToken t) : Offends d t err ↔
    OperatorLike t ∧ err = .unknownOperator t ∨ ¬ OperatorLike t ∧ err = .invalidToken t := by
  constructor
  · intro hoffends
    cases hoffends with
    | closing => exact absurd (.inr (.inr (.inr (.inr (.inl rfl))))) h
    | comma => exact absurd (.inr (.inr (.inr (.inr (.inr rfl))))) h
    | operator _ hlike => exact .inl ⟨hlike, rfl⟩
    | other _ hlike => exact .inr ⟨hlike, rfl⟩
  · rintro (⟨hlike, rfl⟩ | ⟨hlike, rfl⟩)
    · exact .operator h hlike
    · exact .other h hlike

theorem offends_of_isToken (h : Token.IsToken t) : Offends d t err ↔
    d = 0 ∧ (t = ")" ∧ err = .unopened ∨ t = "," ∧ err = .strayComma) := by
  constructor
  · intro hoffends
    cases hoffends with
    | closing hd => exact ⟨hd, .inl ⟨rfl, rfl⟩⟩
    | comma hd => exact ⟨hd, .inr ⟨rfl, rfl⟩⟩
    | operator hnot => exact absurd h hnot
    | other hnot => exact absurd h hnot
  · rintro ⟨hd, ⟨rfl, rfl⟩ | ⟨rfl, rfl⟩⟩
    · exact .closing hd
    · exact .comma hd

theorem step_of_not_isToken (h : ¬ Token.IsToken t) : step s t next = .error err ↔
    OperatorLike t ∧ err = .unknownOperator t ∨ ¬ OperatorLike t ∧ err = .invalidToken t := by
  simp only [Token.IsToken, Token.IsSeparator, not_or] at h
  obtain ⟨hnumber, hname, hsymbol, hopening, hclosing, hcomma⟩ := h
  have hoperator : Operator.ofToken? s.operandNext t = none := if_neg hsymbol
  rw [step, if_neg hnumber, if_neg hname, if_neg hcomma, if_neg hopening, if_neg hclosing, hoperator,
    ← looksLikeOperator_iff]
  by_cases hlike : Token.looksLikeOperator t = true
  · simp [hlike, eq_comm]
  · simp [hlike, eq_comm]

/-- A step fails exactly if the token offends at the depth of the stack. -/
theorem step_eq_error_iff : step s t next = .error err ↔ Offends s.depth t err := by
  by_cases ht : Token.IsToken t
  · rw [offends_of_isToken ht]
    constructor
    · intro h
      rcases ht with hnumber | hname | hsymbol | rfl | rfl | rfl
      · rw [(Step.number hnumber).step_eq] at h
        exact absurd h (by simp)
      · rw [step_of_isIdentifier hname] at h
        split at h <;> exact absurd h (by simp)
      · obtain ⟨⟨symbol, o⟩, ho⟩ := Option.isSome_iff_exists.1 (isSome_ofToken? hsymbol s.operandNext)
        rw [step_of_isBinarySymbol hsymbol, ho] at h
        exact absurd h (by simp)
      · rw [Step.opening.step_eq] at h
        exact absurd h (by simp)
      · obtain ⟨hd, herr⟩ := close_eq_error_iff.1 h
        exact ⟨hd, .inl ⟨rfl, herr⟩⟩
      · obtain ⟨hd, herr⟩ := comma_eq_error_iff.1 h
        exact ⟨hd, .inr ⟨rfl, herr⟩⟩
    · rintro ⟨hd, ⟨rfl, herr⟩ | ⟨rfl, herr⟩⟩
      · exact close_eq_error_iff.2 ⟨hd, herr⟩
      · exact comma_eq_error_iff.2 ⟨hd, herr⟩
  · rw [offends_of_not_isToken ht, step_of_not_isToken ht]

/-! ### The whole scan -/

theorem depth_of_run (h : run s ts = .ok s') : s'.depth = s.depth + depth ts := by
  induction ts generalizing s with
  | nil =>
    obtain rfl := Except.ok.inj h
    exact (add_zero _).symm
  | cons t ts ih =>
    obtain ⟨s₁, hstep, hrun⟩ := run_cons_eq_ok_iff.1 h
    rw [ih hrun, hstep.depth_eq, depth_cons t ts, add_assoc]

/-- A run fails with the error of the first token that offends. -/
theorem run_eq_error_iff : run s ts = .error err ↔
    ∃ before t, FirstAt (Refused s.depth) ts before t ∧ Offends (s.depth + depth before) t err := by
  induction ts generalizing s with
  | nil =>
    refine iff_of_false (by simp [run]) ?_
    rintro ⟨before, t, hfirst, -⟩
    exact not_firstAt_nil hfirst
  | cons t ts ih =>
    have hhere : ∀ err, Offends (s.depth + depth []) t err ↔ step s t ts.head? = .error err := fun err => by
      rw [step_eq_error_iff, show s.depth + depth [] = s.depth from add_zero _]
    rw [exists_firstAt_cons, run]
    cases hstep : step s t ts.head? with
    | error err' =>
      have hrefused : Refused s.depth [] t := ⟨err', (hhere err').2 hstep⟩
      simp only [hrefused, true_and, not_true, false_and, or_false]
      rw [hhere, hstep]
    | ok s₁ =>
      have hpassed : ¬ Refused s.depth [] t := by
        rintro ⟨err', herr⟩
        exact absurd (hstep.symm.trans ((hhere err').1 herr)) (by simp)
      have hdepth := (step_eq_ok_iff.1 hstep).depth_eq
      simp only [hpassed, false_and, not_false_iff, true_and, false_or]
      rw [ih, hdepth, ← refused_cons]
      refine exists_congr fun before => exists_congr fun t' => and_congr_right fun _ => ?_
      rw [depth_cons t before, add_assoc]

theorem exists_run_iff : (∃ s', run s ts = .ok s') ↔ Nowhere (Refused s.depth) ts := by
  rw [nowhere_iff]
  constructor
  · rintro ⟨s', hrun⟩ before t hfirst
    obtain ⟨err, hoffends⟩ := hfirst.fails
    exact absurd (hrun.symm.trans (run_eq_error_iff.2 ⟨before, t, hfirst, hoffends⟩)) (by simp)
  · intro h
    cases hrun : run s ts with
    | ok s' => exact ⟨s', rfl⟩
    | error err =>
      obtain ⟨before, t, hfirst, -⟩ := run_eq_error_iff.1 hrun
      exact absurd hfirst (h before t)

/-- A parenthesis is left open exactly if the depth is positive. -/
theorem finish_of_depth (s : State) : finish s =
    if 0 < s.depth then .error .unclosed else .ok (s.output ++ s.marks.map .mark) := by
  have hparen : s.marks.contains .paren = true ↔ 0 < s.depth := by
    rw [List.contains_iff_mem, State.depth, Int.natCast_pos, List.count_pos_iff]
  simp only [finish, hparen]

theorem exists_run_start_iff : (∃ s, run start ts = .ok s) ↔ Nowhere (Refused 0) ts := exists_run_iff

theorem depth_eq_of_run_start (h : run start ts = .ok s) : s.depth = depth ts :=
  (depth_of_run h).trans (zero_add _)

theorem arrange_eq_error_iff : arrange ts = .error err ↔
    (∃ before t, FirstAt (Refused 0) ts before t ∧ Offends (depth before) t err) ∨
      (Nowhere (Refused 0) ts ∧ 0 < depth ts ∧ err = .unclosed) := by
  have hfails : run start ts = .error err ↔
      ∃ before t, FirstAt (Refused 0) ts before t ∧ Offends (depth before) t err := by
    rw [run_eq_error_iff]
    simp only [show start.depth = 0 from rfl, zero_add]
  rw [arrange]
  cases hrun : run start ts with
  | error err' =>
    have hrefused : ¬ Nowhere (Refused 0) ts := fun hnowhere => by
      obtain ⟨s, hs⟩ := exists_run_start_iff.2 hnowhere
      exact absurd (hs.symm.trans hrun) (by simp)
    rw [← hfails, hrun]
    simp only [Except.error.injEq]
    constructor
    · exact .inl
    · rintro (h | ⟨hnowhere, -⟩)
      · exact h
      · exact absurd hnowhere hrefused
  | ok s =>
    have hnowhere : Nowhere (Refused 0) ts := exists_run_start_iff.1 ⟨s, hrun⟩
    rw [← hfails, hrun]
    show finish s = .error err ↔ _
    rw [finish_of_depth, depth_eq_of_run_start hrun]
    constructor
    · intro h
      split at h
      · rename_i hdepth
        exact .inr ⟨hnowhere, hdepth, (Except.error.inj h).symm⟩
      · exact absurd h (by simp)
    · rintro (h | ⟨-, hdepth, rfl⟩)
      · exact absurd h (by simp)
      · rw [if_pos hdepth]

theorem exists_arrange_iff : (∃ p, arrange ts = .ok p) ↔ Nowhere (Refused 0) ts ∧ depth ts = 0 := by
  constructor
  · rintro ⟨p, hp⟩
    unfold arrange at hp
    split at hp
    · exact absurd hp (by simp)
    · rename_i s hrun
      have hnonneg : 0 ≤ s.depth := Int.natCast_nonneg _
      rw [finish_of_depth] at hp
      split at hp
      · exact absurd hp (by simp)
      · rename_i hdepth
        rw [depth_eq_of_run_start hrun] at hdepth hnonneg
        exact ⟨exists_run_start_iff.1 ⟨s, hrun⟩, by omega⟩
  · rintro ⟨hnowhere, hdepth⟩
    obtain ⟨s, hrun⟩ := exists_run_start_iff.2 hnowhere
    refine ⟨s.output ++ s.marks.map .mark, ?_⟩
    rw [arrange, hrun]
    show finish s = _
    rw [finish_of_depth, depth_eq_of_run_start hrun, hdepth]
    rfl

/-- The internal symbol of negation is no token. -/
theorem offends_negation : Offends d Operator.negation err ↔ err = .invalidToken Operator.negation := by
  have hlike : ¬ OperatorLike Operator.negation := by
    rw [← looksLikeOperator_iff]
    decide
  rw [offends_of_not_isToken (by unfold Token.IsToken; decide)]
  simp [hlike]

/-- The first pass fails with the error of the first token that offends at its depth, and at the end if a parenthesis
is still open. Otherwise it gives a listing, whatever the operators and operands are, and no parenthesis is in it. -/
theorem arrange_decided_by_depth (ts : List String) :
    (∀ err, arrange ts = .error err ↔
      (∃ before t, FirstAt (Refused 0) ts before t ∧ Offends (depth before) t err) ∨
      (Nowhere (Refused 0) ts ∧ 0 < depth ts ∧ err = .unclosed)) ∧
    ((∃ p, arrange ts = .ok p) ↔ Nowhere (Refused 0) ts ∧ depth ts = 0) ∧
    (∀ p, arrange ts = .ok p → .mark .paren ∉ p) ∧
    ∀ d err, Offends d Operator.negation err ↔ err = .invalidToken Operator.negation :=
  ⟨fun _ => arrange_eq_error_iff, exists_arrange_iff, fun _ hp hparen => proper_of_arrange hp _ hparen,
    fun _ _ => offends_negation⟩

/-- A sum without operands passes, and a second closing parenthesis is refused before the string behind it is. -/
theorem arrange_of_second_closing :
    let ts := ["(", "+", ")"]
    Nowhere (Refused 0) ts ∧ depth ts = 0 ∧ (∃ p, arrange ts = .ok p ∧ .mark .paren ∉ p) ∧
      FirstAt (Refused 0) (ts ++ [")", "u-"]) ts ")" ∧ arrange (ts ++ [")", "u-"]) = .error .unopened := by
  intro ts
  have hok : arrange ts = .ok [.mark (.op "+")] := by decide +kernel
  obtain ⟨-, hpasses, hparen, -⟩ := arrange_decided_by_depth ts
  obtain ⟨hnowhere, hdepth⟩ := hpasses.1 ⟨_, hok⟩
  have hoffends : Offends (depth ts) ")" .unopened := .closing hdepth
  have hfirst : FirstAt (Refused 0) (ts ++ [")", "u-"]) ts ")" :=
    ⟨⟨["u-"], rfl⟩, ⟨.unopened, (zero_add (depth ts)).symm ▸ hoffends⟩, hnowhere⟩
  obtain ⟨hfails, -⟩ := arrange_decided_by_depth (ts ++ [")", "u-"])
  exact ⟨hnowhere, hdepth, ⟨_, hok, hparen _ hok⟩, hfirst, (hfails _).2 (.inl ⟨ts, ")", hfirst, hoffends⟩)⟩

end Phasor.Postfix
