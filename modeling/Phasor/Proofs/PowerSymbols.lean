import Phasor.Elementary.Platform
import Phasor.Proofs.Operations
import Phasor.Proofs.Reading
import Phasor.Proofs.Steps

/-!
# The two symbols of powers

`^` and `**` are two spellings of one operator. `starred` writes every `^` as `**`, in a token, an item, a tree or an
error. Both passes of the reader commute with it, in results and in errors (`Postfix.arrange_starred`,
`Postfix.build_starred`), and evaluation does not notice it (`Expr.evaluate_starred`).
-/

namespace Phasor

namespace Operator

/-- The symbol, with `**` for `^`. -/
def starred (s : String) : String := if s = "^" then "**" else s

variable {s t : String}

theorem starred_of_ne (h : s ≠ "^") : starred s = s := if_neg h

theorem starred_eq_iff (h : t ≠ "^") (h' : t ≠ "**") : starred s = t ↔ s = t := by
  unfold starred
  split
  · rename_i hs
    subst hs
    exact iff_of_false h'.symm h.symm
  · exact Iff.rfl

theorem isBinarySymbol_starred (s : String) : isBinarySymbol (starred s) = isBinarySymbol s := by
  unfold starred
  split
  · rename_i hs
    subst hs
    rfl
  · rfl

theorem ofSymbol?_starred (s : String) : ofSymbol? (starred s) = ofSymbol? s := by
  unfold starred
  split
  · rename_i hs
    subst hs
    rfl
  · rfl

end Operator

open Operator (starred starred_of_ne starred_eq_iff)

/-! ### Renaming -/

def Mark.starred : Mark → Mark
  | op s => op (Operator.starred s)
  | m => m

def Item.starred : Item → Item
  | mark m => mark m.starred
  | i => i

namespace Expr

mutual

/-- The tree with `**` for `^`. -/
def starred : Expr → Expr
  | lit t => lit t
  | var n => var n
  | unary op e => unary op e.starred
  | binary op l r => binary (Operator.starred op) l.starred r.starred
  | call n args => call n (starredAll args)

def starredAll : List Expr → List Expr
  | [] => []
  | e :: es => e.starred :: starredAll es

end

theorem starredAll_eq (es : List Expr) : starredAll es = es.map starred := by
  induction es with
  | nil => rfl
  | cons e es ih => rw [starredAll, ih, List.map_cons]

theorem starred_call (n : String) (args : List Expr) : (call n args).starred = call n (args.map starred) := by
  rw [starred, starredAll_eq]

end Expr

def Consumer.starred : Consumer → Consumer
  | operator s => operator (Operator.starred s)
  | c => c

/-- The same error, of an operator by its other name. -/
def ParseError.starred : ParseError → ParseError
  | tooFewOperands c => tooFewOperands c.starred
  | e => e

theorem ParseError.kind_starred (e : ParseError) : e.starred.kind = e.kind := by
  cases e <;> rfl

def Failure.starred : Failure → Failure
  | parse e => parse e.starred
  | f => f

/-! ### Arranging -/

namespace Postfix

def State.starred (s : State) : State := ⟨s.output.map Item.starred, s.marks.map Mark.starred, s.operandNext⟩

theorem starred_bne_paren (m : Mark) : (m.starred != .paren) = (m != .paren) := by
  cases m <;> rfl

theorem waits_starred (o : Operator) (m : Mark) : waits o m.starred = waits o m := by
  cases m with
  | paren => rfl
  | fn n => rfl
  | op s =>
    show (Operator.ofSymbol? (starred s)).any o.yieldsTo = (Operator.ofSymbol? s).any o.yieldsTo
    rw [Operator.ofSymbol?_starred]

theorem output_append_starred (s : State) (popped : List Mark) :
    s.starred.output ++ (popped.map Mark.starred).map Item.mark =
      (s.output ++ popped.map Item.mark).map Item.starred := by
  rw [List.map_append, List.map_map, List.map_map]
  rfl

theorem untilParen_starred (marks : List Mark) : untilParen (marks.map Mark.starred) =
    ((untilParen marks).1.map Mark.starred, (untilParen marks).2.map Mark.starred) := by
  have hparen : ((· != Mark.paren) ∘ Mark.starred) = (· != Mark.paren) := funext starred_bne_paren
  unfold untilParen
  rw [List.takeWhile_map, List.dropWhile_map, hparen]

theorem pushOperator_starred (s : State) (symbol : String) (o : Operator) :
    pushOperator s.starred (starred symbol) o = (pushOperator s symbol o).starred := by
  have hwaits : (waits o ∘ Mark.starred) = waits o := funext (waits_starred o)
  unfold pushOperator
  rw [show s.starred.marks = s.marks.map Mark.starred from rfl, List.takeWhile_map, List.dropWhile_map, hwaits]
  dsimp only
  rw [output_append_starred]
  rfl

theorem comma_starred (s : State) : comma s.starred = (comma s).map State.starred := by
  unfold comma
  rw [show s.starred.marks = s.marks.map Mark.starred from rfl, untilParen_starred]
  rcases untilParen s.marks with ⟨popped, _ | ⟨m, marks⟩⟩
  · rfl
  · simp only [List.map_cons, output_append_starred]
    rfl

theorem close_starred (s : State) : close s.starred = (close s).map State.starred := by
  unfold close
  rw [show s.starred.marks = s.marks.map Mark.starred from rfl, untilParen_starred]
  rcases untilParen s.marks with ⟨popped, _ | ⟨m, _ | ⟨m', marks⟩⟩⟩
  · rfl
  · simp only [List.map_cons, List.map_nil, output_append_starred]
    rfl
  · cases m' with
    | paren | op =>
      simp only [List.map_cons, Mark.starred, output_append_starred]
      rfl
    | fn n =>
      have hcall : ∀ out : List Item, out.map Item.starred ++ [Item.mark (.fn n)] =
          (out ++ [Item.mark (.fn n)]).map Item.starred := by
        intro out
        rw [List.map_append]
        rfl
      simp only [List.map_cons, Mark.starred, output_append_starred, hcall]
      rfl

/-- The operator of a token that is not `^` is written like the token, or as the negation. -/
theorem starred_ofToken? {t symbol : String} {o : Operator} {b : Bool} (ht : t ≠ "^")
    (h : Operator.ofToken? b t = some (symbol, o)) : starred symbol = symbol := by
  rcases ofToken?_cases h with ⟨-, -, rfl, -⟩ | ⟨-, -, rfl, -⟩
  · rfl
  · exact starred_of_ne ht

/-- A token does what it does by its other name. -/
theorem step_starred (s : State) (t : String) (next : Option String) :
    step s.starred (starred t) (next.map starred) = (step s t next).map State.starred := by
  by_cases ht : t = "^"
  · subst ht
    rw [show starred "^" = "**" from rfl, step_of_isBinarySymbol (t := "**") rfl,
      step_of_isBinarySymbol (t := "^") rfl, ofToken?_operator (t := "**") rfl rfl (by simp),
      ofToken?_operator (t := "^") rfl rfl (by simp)]
    exact congrArg Except.ok (pushOperator_starred s "^" ⟨5, true⟩)
  rw [starred_of_ne ht]
  unfold step
  by_cases hnumber : Token.isNumber t = true
  · rw [if_pos hnumber, if_pos hnumber]
    show Except.ok (State.mk (_ ++ _) _ _) = Except.ok (State.mk (List.map _ (_ ++ _)) _ _)
    rw [List.map_append]
    rfl
  rw [if_neg hnumber, if_neg hnumber]
  by_cases hidentifier : Token.isIdentifier t = true
  · have hnext : next.map starred = some "(" ↔ next = some "(" := by
      cases next with
      | none => exact iff_of_false (by simp) (by simp)
      | some u =>
        rw [Option.map_some, Option.some_inj, Option.some_inj]
        exact starred_eq_iff (by decide) (by decide)
    rw [if_pos hidentifier, if_pos hidentifier]
    by_cases hcall : next = some "("
    · rw [if_pos (hnext.2 hcall), if_pos hcall]
      rfl
    · rw [if_neg (mt hnext.1 hcall), if_neg hcall]
      show Except.ok (State.mk (_ ++ _) _ _) = Except.ok (State.mk (List.map _ (_ ++ _)) _ _)
      rw [List.map_append]
      rfl
  rw [if_neg hidentifier, if_neg hidentifier]
  by_cases hcomma : t = ","
  · rw [if_pos hcomma, if_pos hcomma, comma_starred]
  rw [if_neg hcomma, if_neg hcomma]
  by_cases hopening : t = "("
  · rw [if_pos hopening, if_pos hopening]
    rfl
  rw [if_neg hopening, if_neg hopening]
  by_cases hclosing : t = ")"
  · rw [if_pos hclosing, if_pos hclosing, close_starred]
  rw [if_neg hclosing, if_neg hclosing, show s.starred.operandNext = s.operandNext from rfl]
  cases hoperator : Operator.ofToken? s.operandNext t with
  | some p =>
    obtain ⟨symbol, o⟩ := p
    have hpush := pushOperator_starred s symbol o
    rw [starred_ofToken? ht hoperator] at hpush
    exact congrArg Except.ok hpush
  | none =>
    dsimp only
    split <;> rfl

theorem run_starred (s : State) (ts : List String) : run s.starred (ts.map starred) = (run s ts).map State.starred := by
  induction ts generalizing s with
  | nil => rfl
  | cons t ts ih =>
    rw [List.map_cons, run, run, List.head?_map, step_starred]
    cases step s t ts.head? with
    | error e => rfl
    | ok s' => exact ih s'

theorem finish_starred (s : State) : finish s.starred = (finish s).map (List.map Item.starred) := by
  have hparen : (s.marks.map Mark.starred).contains .paren = s.marks.contains .paren := by
    induction s.marks with
    | nil => rfl
    | cons m marks ih =>
      rw [List.map_cons, List.contains_cons, List.contains_cons, ih]
      cases m <;> rfl
  unfold finish
  rw [show s.starred.marks = s.marks.map Mark.starred from rfl, hparen, output_append_starred]
  split <;> rfl

theorem arrange_starred (ts : List String) : arrange (ts.map starred) = (arrange ts).map (List.map Item.starred) := by
  have hrun : run start (ts.map starred) = (run start ts).map State.starred := run_starred start ts
  unfold arrange
  rw [hrun]
  cases run start ts with
  | error e => rfl
  | ok s => exact finish_starred s

/-- No error of the first pass is about an operator. -/
theorem starred_of_arrange_error {ts : List String} {e : ParseError} (h : arrange ts = .error e) : e.starred = e := by
  rcases arrange_eq_error h with (rfl | rfl | rfl) | ⟨t, -, -, rfl | rfl⟩ <;> rfl

/-! ### Building -/

/-- The result, or the failure, with `**` for `^`. -/
def renamed {α β : Type} (f : α → β) (x : Except Failure α) : Except Failure β :=
  (x.map f).mapError Failure.starred

theorem reduce_function_starred (stack : List Expr) (n : String) : reduce (stack.map Expr.starred) (.mark (.fn n)) =
    renamed (List.map Expr.starred) (reduce stack (.mark (.fn n))) := by
  rw [reduce, reduce, List.length_map]
  split
  · rfl
  · show Except.ok _ = Except.ok (_ :: _)
    rw [Expr.starred_call, ← List.map_take, ← List.map_drop, ← List.map_reverse]

theorem reduce_operator_starred (stack : List Expr) (s : String) :
    reduce (stack.map Expr.starred) (.mark (.op (starred s))) =
      renamed (List.map Expr.starred) (reduce stack (.mark (.op s))) := by
  have hnegation : starred s = Operator.negation ↔ s = Operator.negation := starred_eq_iff (by decide) (by decide)
  simp only [reduce, hnegation, Operator.isBinarySymbol_starred]
  split
  · rename_i hs
    rw [hnegation.2 hs, hs]
    cases stack <;> rfl
  split
  · rcases stack with _ | ⟨r, _ | ⟨l, stack⟩⟩ <;> rfl
  · rfl

theorem reduce_starred (stack : List Expr) (i : Item) :
    reduce (stack.map Expr.starred) i.starred = renamed (List.map Expr.starred) (reduce stack i) := by
  cases i with
  | lit t => rfl
  | var n => rfl
  | mark m =>
    cases m with
    | paren => rfl
    | fn n => exact reduce_function_starred stack n
    | op s => exact reduce_operator_starred stack s

theorem reduceAll_starred (stack : List Expr) (items : List Item) :
    reduceAll (stack.map Expr.starred) (items.map Item.starred) =
      renamed (List.map Expr.starred) (reduceAll stack items) := by
  induction items generalizing stack with
  | nil => rfl
  | cons i items ih =>
    rw [List.map_cons, reduceAll, reduceAll, reduce_starred]
    cases reduce stack i with
    | error f => rfl
    | ok stack' => exact ih stack'

theorem build_starred (items : List Item) : build (items.map Item.starred) = renamed Expr.starred (build items) := by
  have hstack : reduceAll [] (items.map Item.starred) = renamed (List.map Expr.starred) (reduceAll [] items) :=
    reduceAll_starred [] items
  unfold build
  rw [hstack]
  rcases reduceAll [] items with f | (_ | ⟨e, _ | ⟨e', stack⟩⟩) <;> rfl

end Postfix

/-! ### Evaluation -/

section

variable [Elementary]

theorem applyOperator_starred (op : String) (z w : Complex) :
    applyOperator (Operator.starred op) z w = applyOperator op z w := by
  unfold Operator.starred
  split
  · rename_i hop
    subst hop
    rfl
  · rfl

namespace Expr

omit [Elementary] in
theorem children_starred (e : Expr) : e.starred.children = e.children.map starred := by
  cases e with
  | call n args =>
    rw [starred_call]
    rfl
  | _ => rfl

theorem operate_starred (env : Environment) (e : Expr) : e.starred.operate env = e.operate env := by
  funext zs
  cases e with
  | lit t => rfl
  | var n => rfl
  | unary op e => cases zs <;> rfl
  | call n args =>
    rw [starred_call]
    rfl
  | binary op l r =>
    rcases zs with _ | ⟨z, _ | ⟨w, zs⟩⟩
    · rfl
    · rfl
    · show (applyOperator (Operator.starred op) z w).mapError _ = _
      rw [applyOperator_starred]
      rfl

theorem evaluateAll_map_starred {env : Environment} {es : List Expr}
    (h : ∀ e ∈ es, e.starred.evaluate env = e.evaluate env) :
    evaluateAll env (es.map starred) = evaluateAll env es := by
  induction es with
  | nil => rfl
  | cons e es ih =>
    obtain ⟨he, hes⟩ := List.forall_mem_cons.1 h
    rw [List.map_cons, evaluateAll, evaluateAll, he, ih hes]

/-- Either symbol has the same meaning. -/
theorem evaluate_starred (env : Environment) (e : Expr) : e.starred.evaluate env = e.evaluate env := by
  induction e using induction_children with
  | h e ih => rw [evaluate_eq, evaluate_eq, children_starred, evaluateAll_map_starred ih, operate_starred]

/-! ### Reading -/

omit [Elementary] in
theorem ofTokens_map_starred (ts : List String) :
    ofTokens (ts.map Operator.starred) = Postfix.renamed starred (ofTokens ts) := by
  unfold ofTokens
  rw [Postfix.arrange_starred]
  cases harrange : Postfix.arrange ts with
  | error e =>
    exact congrArg (fun e => Except.error (Failure.parse e)) (Postfix.starred_of_arrange_error harrange).symm
  | ok items => exact Postfix.build_starred items

/-- `^` and `**` are the same operator. Tokens with `**` for every `^` are an expression if and only if the tokens are
one, and then the trees differ in the names of powers only and have the same value, or the same failure, in every
environment. Otherwise the errors are of one kind. -/
theorem ofTokens_starred (ts : List String) :
    ((∃ e, ofTokens (ts.map Operator.starred) = .ok e) ↔ ∃ e, ofTokens ts = .ok e) ∧
    (∀ e, ofTokens ts = .ok e →
      ofTokens (ts.map Operator.starred) = .ok e.starred ∧ ∀ env, e.starred.evaluate env = e.evaluate env) ∧
    ∀ f, ofTokens ts = .error f →
      ∃ err, f = .parse err ∧ ofTokens (ts.map Operator.starred) = .error (.parse err.starred) ∧
        err.starred.kind = err.kind := by
  rw [ofTokens_map_starred]
  cases h : ofTokens ts with
  | ok e =>
    refine ⟨iff_of_true ⟨e.starred, rfl⟩ ⟨e, rfl⟩, ?_, fun f hf => absurd hf (by simp)⟩
    rintro _ ⟨⟩
    exact ⟨rfl, fun env => evaluate_starred env e⟩
  | error f =>
    obtain ⟨err, rfl, -⟩ := ofTokens_eq_error h
    refine ⟨iff_of_false (by rintro ⟨e, ⟨⟩⟩) (by rintro ⟨e, ⟨⟩⟩), fun e he => absurd he (by simp), ?_⟩
    rintro _ ⟨⟩
    exact ⟨err, rfl, rfl, err.kind_starred⟩

end Expr

end

namespace Expr

/-- Both symbols in one expression, and one of them without operands. -/
theorem ofTokens_starred_mixed :
    let e : Expr := binary "^" (var "x") (binary "**" (var "y") (lit "2"))
    ofTokens ["x", "^", "y", "**", "2"] = .ok e ∧
    ofTokens ["x", "**", "y", "**", "2"] = .ok (binary "**" (var "x") (binary "**" (var "y") (lit "2"))) ∧
    (∀ env, e.starred.evaluate env = e.evaluate env) ∧
    ofTokens ["^"] = .error (.parse (.tooFewOperands (.operator "^"))) ∧
    ofTokens ["**"] = .error (.parse (.tooFewOperands (.operator "**"))) := by
  intro e
  have hread : ofTokens ["x", "^", "y", "**", "2"] = .ok e := by decide +kernel
  have hfail : ofTokens ["^"] = .error (.parse (.tooFewOperands (.operator "^"))) := by decide +kernel
  obtain ⟨hstarred, hvalue⟩ := (ofTokens_starred ["x", "^", "y", "**", "2"]).2.1 e hread
  obtain ⟨err, herr, hkind, -⟩ := (ofTokens_starred ["^"]).2.2 _ hfail
  obtain rfl := Failure.parse.inj herr
  exact ⟨hread, hstarred, hvalue, hfail, hkind⟩

end Expr

end Phasor
