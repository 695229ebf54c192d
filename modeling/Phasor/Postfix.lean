import Phasor.Expr
import Phasor.Token

/-!
# Postfix order

The way from infix tokens to a tree, in two passes. `arrange` moves operators and functions behind
their operands, keeping the ones that wait on a stack of marks; `build` makes a tree of the result
with a stack of trees. Neither asks whether operands and operators alternate: `build` only finds out
whether the numbers of operands work out.
-/

namespace Phasor

/-- What waits on the stack of marks. -/
inductive Mark
  | paren
  | op (symbol : String)
  | fn (name : String)
deriving Repr, DecidableEq

inductive Item
  | lit (text : String)
  | var (name : String)
  | mark (m : Mark)
deriving Repr, DecidableEq

structure Operator where
  precedence : Nat
  rightAssociative : Bool
deriving Repr, DecidableEq

namespace Operator

/-- The symbol of negation in postfix order, where `-` is subtraction. -/
def negation : String := "u-"

/-- Negation binds tighter than powers, so `-x**2` is `(-x)**2`. -/
def ofSymbol? : String → Option Operator
  | "+" | "-" => some ⟨2, false⟩
  | "*" | "/" => some ⟨3, false⟩
  | "**" | "^" => some ⟨5, true⟩
  | "u-" => some ⟨6, true⟩
  | _ => none

/-- Whether `o` takes a waiting operator as (part of) its left operand. -/
def yieldsTo (o waiting : Operator) : Bool :=
  if o.rightAssociative then o.precedence < waiting.precedence
  else o.precedence ≤ waiting.precedence

/-- The operator that an infix token stands for, and its symbol in postfix order. -/
def ofToken? (operandNext : Bool) (t : String) : Option (String × Operator) :=
  let symbol := if t = "-" && operandNext then negation else t
  if isBinarySymbol t then (ofSymbol? symbol).map fun o => (symbol, o) else none

end Operator

namespace Postfix

/-- The state between two tokens; the last mark pushed comes first. A minus is a negation when
`operandNext` holds, that is at the start and after `(`, `,` and operators. -/
structure State where
  output : List Item
  marks : List Mark
  operandNext : Bool
deriving Repr, DecidableEq

def start : State := ⟨[], [], true⟩

/-- Waiting operators go to the output before `o` if `o` yields to them; other marks stop that. -/
def waits (o : Operator) : Mark → Bool
  | .op s => (Operator.ofSymbol? s).any o.yieldsTo
  | _ => false

/-- The marks above the last opening parenthesis, and the stack from that parenthesis on. -/
def untilParen (marks : List Mark) : List Mark × List Mark :=
  (marks.takeWhile (· != .paren), marks.dropWhile (· != .paren))

def pushOperator (s : State) (symbol : String) (o : Operator) : State :=
  let popped := s.marks.takeWhile (waits o)
  ⟨s.output ++ popped.map .mark, .op symbol :: s.marks.dropWhile (waits o), true⟩

def comma (s : State) : Except ParseError State :=
  match untilParen s.marks with
  | (_, []) => .error .strayComma
  | (popped, marks) => .ok ⟨s.output ++ popped.map .mark, marks, true⟩

/-- A function that waits below the parenthesis closed here has all its arguments. -/
def close (s : State) : Except ParseError State :=
  match untilParen s.marks with
  | (_, []) => .error .unopened
  | (popped, _ :: .fn n :: marks) =>
    .ok ⟨s.output ++ popped.map .mark ++ [.mark (.fn n)], marks, false⟩
  | (popped, _ :: marks) => .ok ⟨s.output ++ popped.map .mark, marks, false⟩

/-- `next` is the token after `t`; an identifier before `(` is a function. -/
def step (s : State) (t : String) (next : Option String) : Except ParseError State :=
  if Token.isNumber t then .ok ⟨s.output ++ [.lit t], s.marks, false⟩
  else if Token.isIdentifier t then
    if next = some "(" then .ok ⟨s.output, .fn t :: s.marks, false⟩
    else .ok ⟨s.output ++ [.var t], s.marks, false⟩
  else if t = "," then comma s
  else if t = "(" then .ok ⟨s.output, .paren :: s.marks, true⟩
  else if t = ")" then close s
  else
    match Operator.ofToken? s.operandNext t with
    | some (symbol, o) => .ok (pushOperator s symbol o)
    | none =>
      if Token.looksLikeOperator t then .error (.unknownOperator t) else .error (.invalidToken t)

def run (s : State) : List String → Except ParseError State
  | [] => .ok s
  | t :: ts =>
    match step s t ts.head? with
    | .error e => .error e
    | .ok s => run s ts

/-- The marks that still wait follow the output. -/
def finish (s : State) : Except ParseError (List Item) :=
  if s.marks.contains .paren then .error .unclosed
  else .ok (s.output ++ s.marks.map .mark)

def arrange (tokens : List String) : Except ParseError (List Item) :=
  match run start tokens with
  | .error e => .error e
  | .ok s => finish s

/-! ### Building the tree -/

/-- The stack of trees after an item; the last tree comes first. -/
def reduce (stack : List Expr) : Item → Except Failure (List Expr)
  | .lit t => .ok (.lit t :: stack)
  | .var n => .ok (.var n :: stack)
  | .mark .paren => .error (.parse .markAmongItems)
  | .mark (.fn n) =>
    let k := functionArity n
    if stack.length < k then .error (.parse (.tooFewOperands (.function n)))
    else .ok (.call n (stack.take k).reverse :: stack.drop k)
  | .mark (.op s) =>
    if s = Operator.negation then
      match stack with
      | e :: stack => .ok (.unary "-" e :: stack)
      | [] => .error (.parse (.tooFewOperands (.operator s)))
    else if isBinarySymbol s then
      match stack with
      | r :: l :: stack => .ok (.binary s l r :: stack)
      | _ => .error (.parse (.tooFewOperands (.operator s)))
    else .error (.fault .unknownSymbol)

def reduceAll (stack : List Expr) : List Item → Except Failure (List Expr)
  | [] => .ok stack
  | i :: items =>
    match reduce stack i with
    | .error e => .error e
    | .ok stack => reduceAll stack items

def build (items : List Item) : Except Failure Expr :=
  match reduceAll [] items with
  | .error e => .error e
  | .ok [e] => .ok e
  | .ok _ => .error (.parse .notOneExpression)

/-! ### Text -/

def describe : Item → String
  | .lit t => t
  | .var n => n
  | .mark .paren => "("
  | .mark (.op s) => s
  | .mark (.fn n) => n ++ "()"

end Postfix

/-- Reads infix tokens. -/
def Expr.ofTokens (tokens : List String) : Except Failure Expr :=
  match Postfix.arrange tokens with
  | .error e => .error (.parse e)
  | .ok items => Postfix.build items

/-- Reads infix text. -/
def Expr.ofText (text : String) : Except Failure Expr :=
  match Token.scan text with
  | .error e => .error (.parse e)
  | .ok tokens => Expr.ofTokens tokens

end Phasor
