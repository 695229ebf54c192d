import Phasor.Evaluation
import Phasor.Expr.PrefixForm

/-!
# Sketches

A sketch is a tree in which gaps may stand where expressions belong: a blank node, or data of another
kind. Sketches without gaps are expressions. A question that a gap cannot answer ends in a fault, and
the leftmost gap decides which.
-/

namespace Phasor

inductive Gap
  | blank
  | foreign (d : Datum)
deriving Repr

inductive Sketch
  | gap (g : Gap)
  | lit (text : String)
  | var (name : String)
  | unary (op : String) (s : Sketch)
  | binary (op : String) (l r : Sketch)
  | call (name : String) (args : List Sketch)
deriving Repr

namespace Gap

/-- Blank nodes differ from everything, also from each other. -/
def same : Gap → Gap → Bool
  | foreign a, foreign b => a.same b
  | _, _ => false

/-- Asked for its size or variables. -/
def queryFault : Gap → Fault
  | blank => .blankNode
  | foreign _ => .noSuchQuery

/-- Asked for its children as part of a drawing. -/
def treeFault : Gap → Fault
  | blank => .notAnExpression
  | foreign _ => .noSuchQuery

end Gap

namespace Sketch

mutual

/-- Without gaps; otherwise the leftmost gap. -/
def expr? : Sketch → Except Gap Expr
  | gap g => .error g
  | lit t => .ok (.lit t)
  | var n => .ok (.var n)
  | unary op s => do return .unary op (← s.expr?)
  | binary op l r => do
    let a ← l.expr?
    let b ← r.expr?
    return .binary op a b
  | call n args => do return .call n (← exprs? args)

def exprs? : List Sketch → Except Gap (List Expr)
  | [] => .ok []
  | s :: ss => do
    let e ← s.expr?
    let es ← exprs? ss
    return e :: es

end

mutual

def same : Sketch → Sketch → Bool
  | gap g, gap h => g.same h
  | lit s, lit t => s == t
  | var m, var n => m == n
  | unary o s, unary p t => o == p && s.same t
  | binary o l r, binary p m s => o == p && l.same m && r.same s
  | call m ss, call n ts => m == n && sameAll ss ts
  | _, _ => false

def sameAll : List Sketch → List Sketch → Bool
  | [], [] => true
  | s :: ss, t :: ts => s.same t && sameAll ss ts
  | _, _ => false

end

mutual

/-- What is left of a gap may fail first. -/
def evaluate [Elementary] (env : Environment) : Sketch → Except Failure Complex
  | gap _ => .error (.fault .notAnExpression)
  | lit t => (Expr.lit t).evaluate env
  | var n => (Expr.var n).evaluate env
  | unary _ s => do return (← s.evaluate env).neg
  | binary op l r => do
    let z ← l.evaluate env
    let w ← r.evaluate env
    (applyOperator op z w).mapError .eval
  | call name args => do applyFunction name (← evaluateAll env args)

def evaluateAll [Elementary] (env : Environment) : List Sketch → Except Failure (List Complex)
  | [] => .ok []
  | s :: ss => do
    let z ← s.evaluate env
    let zs ← evaluateAll env ss
    return z :: zs

end

/-- A question about the expression, which a gap answers with a fault. -/
def ask {α : Type} (fault : Gap → Fault) (f : Expr → α) (s : Sketch) : Except Fault α :=
  (s.expr?.mapError fault).map f

def size? (s : Sketch) : Except Fault Nat := s.ask Gap.queryFault Expr.size

def variables? (s : Sketch) : Except Fault (List String) := s.ask Gap.queryFault Expr.variables

def render? (s : Sketch) : Except Fault String := s.ask (fun _ => .notAnExpression) Expr.render

/-- Blank nodes have no children; other data has none to ask for. -/
def children? : Sketch → Except Fault (List Sketch)
  | gap .blank => .ok []
  | gap (.foreign _) => .error .noSuchQuery
  | lit _ => .ok []
  | var _ => .ok []
  | unary _ s => .ok [s]
  | binary _ l r => .ok [l, r]
  | call _ args => .ok args

/-- The prefix form, and for data of another kind its own. -/
def written? : Sketch → Except Fault String
  | gap (.foreign d) => .ok d.written
  | s => s.render?

end Sketch

end Phasor
