import Phasor.Expr
import Phasor.Token

/-!
# Prefix form

`render` writes a tree fully parenthesized with operators and functions first, `(+ a (conj b))`, and
`ofPrefixForm` reads that back: `(- x)` is a negation, `(op x y)` an operation and any identifier at
the head a call with as many arguments as the function takes.
-/

namespace Phasor

namespace Expr

mutual

def render : Expr → String
  | lit t => t
  | var n => n
  | unary op e => "(" ++ op ++ " " ++ e.render ++ ")"
  | binary op l r => "(" ++ op ++ " " ++ l.render ++ " " ++ r.render ++ ")"
  | call n args => "(" ++ n ++ renderAll args ++ ")"

/-- Each after a space. -/
def renderAll : List Expr → String
  | [] => ""
  | e :: es => " " ++ e.render ++ renderAll es

end

end Expr

namespace PrefixForm

open Text

def isAtomChar (c : Char) : Bool := !(isBlank c || c == '(' || c == ')')

/-- Parentheses and the runs of other characters between blanks and parentheses. -/
def cut (cs : List Char) : List String :=
  match cs with
  | [] => []
  | c :: r =>
    if isAtomChar c then String.ofList (c :: r.takeWhile isAtomChar) :: cut (r.dropWhile isAtomChar)
    else if isBlank c then cut r
    else String.singleton c :: cut r
termination_by cs.length
decreasing_by
  · have := (List.dropWhile_sublist (l := r) isAtomChar).length_le
    simp only [List.length_cons]; omega
  all_goals simp

/-- An application whose closing parenthesis is still to come, with the arguments read so far, the
last one first. -/
structure Open where
  head : String
  args : List Expr

def apply (head : String) (args : List Expr) : Except ParseError Expr :=
  if isBinarySymbol head then
    match args with
    | [e] => if head = "-" then .ok (.unary "-" e) else .error (.tooFewOperands (.head head))
    | [l, r] => .ok (.binary head l r)
    | [] => .error (.tooFewOperands (.head head))
    | _ => .error (.tooManyOperands head)
  else if Token.isIdentifier head then
    match compare args.length (functionArity head) with
    | .lt => .error (.tooFewOperands (.head head))
    | .eq => .ok (.call head args)
    | .gt => .error (.tooManyOperands head)
  else .error (.invalidHead head)

def atom (t : String) : Except ParseError Expr :=
  if Token.isNumber t then .ok (.lit t)
  else if Token.isIdentifier t then .ok (.var t)
  else .error (.invalidToken t)

/-- Reads on until the outermost of the open applications is closed, and gives the tokens after it.
Without an open application it reads one tree. -/
def read : List Open → List String → Except ParseError (Expr × List String)
  | [], [] => .error .endOfText
  | _ :: _, [] => .error .unclosed
  | opens, "(" :: ts =>
    match ts with
    | [] => .error .missingHead
    | head :: ts =>
      if head = "(" || head = ")" then .error .missingHead else read (⟨head, []⟩ :: opens) ts
  | [], ")" :: _ => .error .unexpectedClose
  | o :: opens, ")" :: ts =>
    match apply o.head o.args.reverse, opens with
    | .error e, _ => .error e
    | .ok e, [] => .ok (e, ts)
    | .ok e, p :: opens => read (⟨p.head, e :: p.args⟩ :: opens) ts
  | [], t :: ts => (atom t).map fun e => (e, ts)
  | o :: opens, t :: ts =>
    match atom t with
    | .error e => .error e
    | .ok e => read (⟨o.head, e :: o.args⟩ :: opens) ts

end PrefixForm

/-- Fails where a token is left over. -/
def Expr.ofPrefixForm (text : String) : Except ParseError Expr :=
  let ts := PrefixForm.cut text.toList
  match PrefixForm.read [] ts with
  | .error e => .error e
  | .ok (e, []) => .ok e
  | .ok (_, rest) => .error (.trailingTokens (ts.length - rest.length) rest)

end Phasor
