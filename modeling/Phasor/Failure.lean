import Phasor.Complex
import Phasor.Text.Quoted

/-!
# What can go wrong

`ParseError` and `EvalError` are the errors of the domain, each a cause with a message. A `Fault` is
a misuse of the data or a limit of the number system that no such error covers; it has a cause and
no message. `Failure` is any of the three.
-/

namespace Phasor

open Text

/-- What an operand is missing for. -/
inductive Consumer
  | function (name : String)
  | operator (symbol : String)
  | head (name : String)
deriving Repr, DecidableEq

def Consumer.text : Consumer → String
  | function name => "function " ++ name
  | operator symbol => "operator " ++ symbol
  | head name => name

inductive ParseError
  | unknownCharacter (position : Nat) (c : Char)
  | strayComma
  | unopened
  | unclosed
  | unexpectedClose
  | unknownOperator (token : String)
  | invalidToken (token : String)
  | invalidHead (token : String)
  | missingHead
  | tooFewOperands (consumer : Consumer)
  | tooManyOperands (head : String)
  | markAmongItems
  | notOneExpression
  | endOfText
  | trailingTokens (position : Nat) (tokens : List String)
deriving Repr, DecidableEq

namespace ParseError

/-- The token an error is about, shown after its text. -/
def token? : ParseError → Option String
  | unknownCharacter _ c => some (String.singleton c)
  | strayComma => some ","
  | unopened => some ")"
  | unexpectedClose => some ")"
  | unknownOperator t => some t
  | invalidToken t => some t
  | invalidHead t => some t
  | _ => none

def text : ParseError → String
  | unknownCharacter p _ => "Invalid character at position " ++ toString p
  | strayComma => "Argument separator outside of a function call"
  | unopened => "Unbalanced parentheses: missing '('"
  | unclosed => "Unbalanced parentheses: missing ')'"
  | unexpectedClose => "Unbalanced parentheses: unexpected ')'"
  | unknownOperator _ => "Unknown operator"
  | invalidToken _ => "Invalid token"
  | invalidHead _ => "Invalid operator or function name"
  | missingHead => "Expected an operator or function name"
  | tooFewOperands c => "Insufficient arguments for " ++ c.text
  | tooManyOperands h => "Too many arguments for " ++ h
  | markAmongItems => "Unexpected postfix item LeftParen()"
  | notOneExpression => "Invalid or ambiguous expression"
  | endOfText => "Unexpected end of expression"
  | trailingTokens p ts =>
    "Unexpected tokens after position " ++ toString p ++ ": " ++ bracketed (ts.map quoted)

def message (e : ParseError) : String :=
  match e.token? with
  | some t => e.text ++ ": " ++ quoted t
  | none => e.text

/-- What is wrong, apart from where and with which token. -/
inductive Kind
  | lexical
  | unexpectedComma
  | unbalancedParentheses
  | unknownOperator
  | invalidToken
  | insufficientArguments
  | malformedExpression
deriving Repr, DecidableEq

def kind : ParseError → Kind
  | unknownCharacter .. => .lexical
  | strayComma => .unexpectedComma
  | unopened | unclosed | unexpectedClose => .unbalancedParentheses
  | unknownOperator _ => .unknownOperator
  | invalidToken _ | invalidHead _ => .invalidToken
  | tooFewOperands _ => .insufficientArguments
  | missingHead | tooManyOperands _ | markAmongItems | notOneExpression | endOfText
  | trailingTokens .. => .malformedExpression

end ParseError

inductive EvalError
  | invalidLiteral (text : String)
  | unbound (name : String)
  | unknownFunction (name : String)
  | unknownOperator (symbol : String)
  | complexDegree (degree : Complex)
  | invalidDegree (degree : Scalar)
  | zeroDivisor
  | negativePowerOfZero
  | negativeRootOfZero
  | overflow
deriving Repr, DecidableEq

def EvalError.message : EvalError → String
  | invalidLiteral t => "Invalid numeric literal: " ++ quoted t
  | unbound n => "Variable has no value: " ++ n
  | unknownFunction n => "Unknown function: " ++ n
  | unknownOperator s => "Operator not implemented: " ++ s
  | complexDegree z => "root: degree must be a real integer, got " ++ z.text
  | invalidDegree n => "root: degree must be a nonzero integer, got " ++ n.text
  | zeroDivisor => "Division by zero (complex)"
  | negativePowerOfZero => "Zero raised to a negative power"
  | negativeRootOfZero => "Negative-degree root of zero"
  | overflow => "Power overflows the float range"

inductive Fault
  /-- A number leaves the range of doubles or of integers. -/
  | outOfRange
  /-- A value makes no sense where it is used. -/
  | badValue
  /-- A function has fewer arguments than it reads. -/
  | missingArgument
  /-- A postfix sequence names an operator that is not in the table. -/
  | unknownSymbol
  /-- A sample lacks a variable that is to be shown. -/
  | missingName
  /-- Something else stands where an expression belongs. -/
  | notAnExpression
  /-- What stands where an expression belongs has no size, variables or children. -/
  | noSuchQuery
  /-- A blank node has no size and no variables. -/
  | blankNode
deriving Repr, DecidableEq

inductive Failure
  | parse (e : ParseError)
  | eval (e : EvalError)
  /-- All draws of an equivalence check were discarded; `cause` discarded the last. -/
  | inconclusive (retries : Nat) (cause : EvalError)
  | fault (f : Fault)
deriving Repr, DecidableEq

namespace Failure

/-- Faults have no message. -/
def message? : Failure → Option String
  | parse e => some e.message
  | eval e => some e.message
  | inconclusive n cause =>
    some ("Equivalence inconclusive: " ++ toString n ++
      " sampled environments failed to evaluate (last error: " ++ cause.message ++ ")")
  | fault _ => none

end Failure

end Phasor
