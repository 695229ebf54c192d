import Mathlib.Data.List.Basic
import Phasor.Expr.PrefixForm
import Phasor.Proofs.Nodes
import Phasor.Proofs.Tokens

/-!
# Reading prefix form

On tokens, `PrefixForm.read` and `Expr.prefixTokens` are inverse to each other. A tree that is read goes
to the innermost open application or is the result (`deliver`); the tokens that are gone are those of
the open applications (`pending`) and of the trees in them.
-/

namespace Phasor

namespace Expr

/-- The operator or function that stands first in the prefix form. -/
def head? : Expr → Option String
  | unary op _ => some op
  | binary op _ _ => some op
  | call n _ => some n
  | _ => none

mutual

/-- The parentheses and words of the prefix form. -/
def prefixTokens : Expr → List String
  | lit t => [t]
  | var n => [n]
  | unary op e => "(" :: op :: e.prefixTokens ++ [")"]
  | binary op l r => "(" :: op :: (l.prefixTokens ++ r.prefixTokens) ++ [")"]
  | call n args => "(" :: n :: prefixTokensAll args ++ [")"]

def prefixTokensAll : List Expr → List String
  | [] => []
  | e :: es => e.prefixTokens ++ prefixTokensAll es

end

theorem prefixTokensAll_eq (es : List Expr) : prefixTokensAll es = es.flatMap prefixTokens := by
  induction es with
  | nil => rfl
  | cons e es ih => rw [prefixTokensAll, ih, List.flatMap_cons]

theorem prefixTokens_of_head {e : Expr} {head : String} (h : e.head? = some head) :
    e.prefixTokens = "(" :: head :: e.children.flatMap prefixTokens ++ [")"] := by
  cases e <;> cases h <;> simp [prefixTokens, children, prefixTokensAll_eq]

theorem prefixTokens_of_head_eq_none {e : Expr} (h : e.head? = none) : e.prefixTokens = [e.render] := by
  cases e <;> cases h <;> simp [prefixTokens, render]

end Expr

namespace PrefixForm

open Phasor.Expr

/-! ### Nodes -/

theorem apply_eq_ok_iff {head : String} {args : List Expr} {e : Expr} :
    apply head args = .ok e ↔ e.Proper ∧ e.head? = some head ∧ e.children = args := by
  constructor
  · intro h
    unfold apply at h
    split at h
    · split at h
      · split at h
        · obtain rfl := Except.ok.inj h
          exact ⟨rfl, by rw [head?, ‹head = _›], rfl⟩
        · exact absurd h (by simp)
      · obtain rfl := Except.ok.inj h
        exact ⟨‹_›, rfl, rfl⟩
      · exact absurd h (by simp)
      · exact absurd h (by simp)
    · split at h
      · split at h
        · exact absurd h (by simp)
        · rename_i hlen
          obtain rfl := Except.ok.inj h
          exact ⟨⟨‹_›, Nat.compare_eq_eq.1 hlen⟩, rfl, rfl⟩
        · exact absurd h (by simp)
      · exact absurd h (by simp)
  · rintro ⟨he, hhead, rfl⟩
    cases e with
    | lit t => exact absurd hhead (by simp [head?])
    | var n => exact absurd hhead (by simp [head?])
    | unary op e =>
      obtain rfl : op = head := Option.some.inj hhead
      obtain rfl : op = "-" := he
      rfl
    | binary op l r =>
      obtain rfl : op = head := Option.some.inj hhead
      have hop : isBinarySymbol op = true := he
      simp [apply, hop, children]
    | call n args =>
      obtain rfl : n = head := Option.some.inj hhead
      obtain ⟨hn, hlen⟩ : Token.isIdentifier n = true ∧ args.length = functionArity n := he
      have hop : isBinarySymbol n = false := by
        rw [Bool.eq_false_iff]
        intro hop
        rw [Token.isIdentifier_of_isBinarySymbol hop] at hn
        exact absurd hn (by decide)
      simp [apply, hop, hn, children, hlen]

theorem atom_eq_ok_iff {t : String} {e : Expr} :
    atom t = .ok e ↔ e.Proper ∧ e.head? = none ∧ e.prefixTokens = [t] := by
  constructor
  · intro h
    unfold atom at h
    split at h
    · obtain rfl := Except.ok.inj h
      exact ⟨‹_›, rfl, by rw [prefixTokens]⟩
    · split at h
      · obtain rfl := Except.ok.inj h
        exact ⟨‹_›, rfl, by rw [prefixTokens]⟩
      · exact absurd h (by simp)
  · rintro ⟨he, hhead, ht⟩
    cases e with
    | lit t' =>
      obtain rfl : t' = t := by simpa [prefixTokens] using ht
      exact if_pos he
    | var n =>
      obtain rfl : n = t := by simpa [prefixTokens] using ht
      have hn : Token.isIdentifier n = true := he
      simp [atom, Token.isNumber_of_isIdentifier hn, hn]
    | unary op e => exact absurd hhead (by simp [head?])
    | binary op l r => exact absurd hhead (by simp [head?])
    | call n args => exact absurd hhead (by simp [head?])

/-! ### One token -/

/-- A tree that is complete is the next argument of the innermost open application. -/
def deliver (opens : List Open) (e : Expr) (ts : List String) : Except ParseError (Expr × List String) :=
  match opens with
  | [] => .ok (e, ts)
  | o :: opens => read (⟨o.head, e :: o.args⟩ :: opens) ts

theorem read_opening {head : String} (h : ¬ (head = "(" ∨ head = ")")) (opens : List Open) (ts : List String) :
    read opens ("(" :: head :: ts) = read (⟨head, []⟩ :: opens) ts := by
  rw [read]
  simp [not_or.1 h]

theorem read_closing (o : Open) (opens : List Open) (ts : List String) :
    read (o :: opens) (")" :: ts) =
      match apply o.head o.args.reverse with
      | .error e => .error e
      | .ok e => deliver opens e ts := by
  cases h : apply o.head o.args.reverse with
  | error e => simp [read, h]
  | ok e => cases opens <;> simp [read, h, deliver]

theorem read_atom {t : String} (h : ¬ (t = "(" ∨ t = ")")) (opens : List Open) (ts : List String) :
    read opens (t :: ts) =
      match atom t with
      | .error e => .error e
      | .ok e => deliver opens e ts := by
  have hne := not_or.1 h
  cases ha : atom t with
  | error e => cases opens <;> simp [read, hne, ha, Except.map]
  | ok e => cases opens <;> simp [read, hne, ha, Except.map, deliver]

/-! ### Errors -/

/-- The kinds of errors in prefix form. -/
inductive ReaderKind : ParseError.Kind → Prop
  | malformedExpression : ReaderKind .malformedExpression
  | unbalancedParentheses : ReaderKind .unbalancedParentheses
  | invalidToken : ReaderKind .invalidToken
  | insufficientArguments : ReaderKind .insufficientArguments

theorem kind_of_apply {head : String} {args : List Expr} {err : ParseError} (h : apply head args = .error err) :
    ReaderKind err.kind := by
  unfold apply at h
  split at h
  · split at h
    · split at h
      · exact absurd h (by simp)
      · obtain rfl := Except.error.inj h; exact .insufficientArguments
    · exact absurd h (by simp)
    · obtain rfl := Except.error.inj h; exact .insufficientArguments
    · obtain rfl := Except.error.inj h; exact .malformedExpression
  · split at h
    · split at h
      · obtain rfl := Except.error.inj h; exact .insufficientArguments
      · exact absurd h (by simp)
      · obtain rfl := Except.error.inj h; exact .malformedExpression
    · obtain rfl := Except.error.inj h; exact .invalidToken

theorem kind_of_atom {t : String} {err : ParseError} (h : atom t = .error err) : ReaderKind err.kind := by
  unfold atom at h
  split at h
  · exact absurd h (by simp)
  split at h
  · exact absurd h (by simp)
  · obtain rfl := Except.error.inj h; exact .invalidToken

/-! ### Whole trees -/

/-- The head of an application is a word and not a parenthesis. -/
theorem not_paren_of_head {e : Expr} {head : String} (he : e.Proper) (h : e.head? = some head) :
    ¬ (head = "(" ∨ head = ")") := by
  cases e with
  | lit t => exact absurd h (by simp [head?])
  | var n => exact absurd h (by simp [head?])
  | unary op e =>
    obtain rfl : op = head := Option.some.inj h
    obtain rfl : op = "-" := he
    decide
  | binary op l r =>
    obtain rfl : op = head := Option.some.inj h
    have hop : isBinarySymbol op = true := he
    rintro (rfl | rfl) <;> exact absurd hop (by decide)
  | call n args =>
    obtain rfl : n = head := Option.some.inj h
    rintro (rfl | rfl) <;> exact absurd he.1 (by decide)

theorem not_paren_of_atom {t : String} {e : Expr} (h : atom t = .ok e) : ¬ (t = "(" ∨ t = ")") := by
  rintro (rfl | rfl)
  · have herr : atom "(" = .error (.invalidToken "(") := rfl
    rw [herr] at h; cases h
  · have herr : atom ")" = .error (.invalidToken ")") := rfl
    rw [herr] at h; cases h

theorem read_flatMap_prefixTokens {es : List Expr}
    (h : ∀ e ∈ es, ∀ opens ts, read opens (e.prefixTokens ++ ts) = deliver opens e ts)
    (head : String) (args : List Expr) (opens : List Open) (ts : List String) :
    read (⟨head, args⟩ :: opens) (es.flatMap prefixTokens ++ ts) =
      read (⟨head, es.reverse ++ args⟩ :: opens) ts := by
  induction es generalizing args with
  | nil => rfl
  | cons e es ih =>
    obtain ⟨he, hes⟩ := List.forall_mem_cons.1 h
    rw [List.flatMap_cons, List.append_assoc, he, deliver, ih hes, List.reverse_cons, List.append_assoc]
    rfl

theorem read_prefixTokens {e : Expr} (h : e.WellFormed) (opens : List Open) (ts : List String) :
    read opens (e.prefixTokens ++ ts) = deliver opens e ts := by
  induction e using induction_children generalizing opens ts with
  | h e ih =>
    obtain ⟨he, hchildren⟩ := everywhere_iff.1 h
    cases hhead : e.head? with
    | none =>
      have htokens : e.prefixTokens = [e.render] := prefixTokens_of_head_eq_none hhead
      have hatom : atom e.render = .ok e := atom_eq_ok_iff.2 ⟨he, hhead, htokens⟩
      rw [htokens, List.singleton_append, read_atom (not_paren_of_atom hatom), hatom]
    | some head =>
      have happly : apply head e.children = .ok e := apply_eq_ok_iff.2 ⟨he, hhead, rfl⟩
      calc read opens (e.prefixTokens ++ ts)
          = read opens ("(" :: head :: (e.children.flatMap prefixTokens ++ ")" :: ts)) := by
            rw [prefixTokens_of_head hhead]; simp
        _ = read (⟨head, []⟩ :: opens) (e.children.flatMap prefixTokens ++ ")" :: ts) :=
            read_opening (not_paren_of_head he hhead) ..
        _ = read (⟨head, e.children.reverse ++ []⟩ :: opens) (")" :: ts) :=
            read_flatMap_prefixTokens (fun c hc => ih c hc (hchildren c hc)) ..
        _ = deliver opens e ts := by
            rw [read_closing, List.append_nil, List.reverse_reverse, happly]

/-- The tokens of an open application so far. -/
def Open.tokens (o : Open) : List String := "(" :: o.head :: o.args.reverse.flatMap prefixTokens

/-- The tokens of all open applications, the outermost first. -/
def pending (opens : List Open) : List String := opens.reverse.flatMap Open.tokens

theorem pending_cons (o : Open) (opens : List Open) : pending (o :: opens) = pending opens ++ o.tokens := by
  simp [pending]

theorem tokens_cons (head : String) (e : Expr) (args : List Expr) :
    (Open.mk head (e :: args)).tokens = (Open.mk head args).tokens ++ e.prefixTokens := by
  simp [Open.tokens]

theorem wellFormed_of_apply {o : Open} {e : Expr} (h : apply o.head o.args.reverse = .ok e)
    (hargs : ∀ a ∈ o.args, a.WellFormed) : e.WellFormed ∧ e.prefixTokens = o.tokens ++ [")"] := by
  obtain ⟨he, hhead, hchildren⟩ := apply_eq_ok_iff.1 h
  refine ⟨everywhere_iff.2 ⟨he, fun c hc => ?_⟩, ?_⟩
  · rw [hchildren, List.mem_reverse] at hc
    exact hargs c hc
  · rw [prefixTokens_of_head hhead, hchildren, Open.tokens]

theorem wellFormed_of_atom {t : String} {e : Expr} (h : atom t = .ok e) :
    e.WellFormed ∧ e.prefixTokens = [t] := by
  obtain ⟨he, hhead, htokens⟩ := atom_eq_ok_iff.1 h
  refine ⟨everywhere_iff.2 ⟨he, ?_⟩, htokens⟩
  cases e <;> cases hhead <;> simp [children]

/-- A tree is read off the front of the tokens `ts`, or the error is one of prefix form. -/
def Answers (ts : List String) : Except ParseError (Expr × List String) → Prop
  | .ok (e, rest) => e.WellFormed ∧ ts = e.prefixTokens ++ rest
  | .error err => ReaderKind err.kind

theorem answers_read {opens : List Open} {ts : List String} (h : ∀ o ∈ opens, ∀ a ∈ o.args, a.WellFormed) :
    Answers (pending opens ++ ts) (read opens ts) := by
  fun_induction read opens ts with
  | case1 => exact ReaderKind.malformedExpression
  | case2 => exact ReaderKind.unbalancedParentheses
  | case3 => exact ReaderKind.malformedExpression
  | case4 => exact ReaderKind.malformedExpression
  | case5 opens head ts _ ih =>
    have := ih (List.forall_mem_cons.2 ⟨by simp, h⟩)
    rw [pending_cons] at this
    simpa [Open.tokens] using this
  | case6 => exact ReaderKind.unbalancedParentheses
  | case7 o opens ts err herr => exact kind_of_apply herr
  | case8 o ts e he =>
    obtain ⟨hwf, htokens⟩ := wellFormed_of_apply he (h o (List.mem_singleton_self o))
    refine ⟨hwf, ?_⟩
    rw [htokens, pending_cons]
    simp [pending]
  | case9 o ts e p opens he ih =>
    obtain ⟨ho, hp, hopens⟩ : _ ∧ _ ∧ _ := by simpa only [List.forall_mem_cons] using h
    obtain ⟨hwf, htokens⟩ := wellFormed_of_apply he ho
    have := ih (List.forall_mem_cons.2 ⟨List.forall_mem_cons.2 ⟨hwf, hp⟩, hopens⟩)
    rw [pending_cons, tokens_cons, htokens] at this
    rw [pending_cons, pending_cons]
    simpa using this
  | case10 t ts hopen hclose =>
    cases ha : atom t with
    | error err => exact kind_of_atom ha
    | ok e =>
      obtain ⟨hwf, htokens⟩ := wellFormed_of_atom ha
      exact ⟨hwf, by rw [htokens]; rfl⟩
  | case11 o opens t ts _ _ err herr => exact kind_of_atom herr
  | case12 o opens t ts _ _ e he ih =>
    obtain ⟨ho, hopens⟩ := List.forall_mem_cons.1 h
    obtain ⟨hwf, htokens⟩ := wellFormed_of_atom he
    have := ih (List.forall_mem_cons.2 ⟨List.forall_mem_cons.2 ⟨hwf, ho⟩, hopens⟩)
    rw [pending_cons, tokens_cons, htokens] at this
    rw [pending_cons]
    simpa using this

end PrefixForm
end Phasor
