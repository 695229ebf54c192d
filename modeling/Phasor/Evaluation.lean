import Phasor.Complex.Power
import Phasor.Environment
import Phasor.Expr

/-!
# Evaluation

`Expr.evaluate` computes the value of a tree. Operands and arguments are evaluated from left to right
before the operation is looked up, and the first failure is the result.
-/

namespace Phasor

variable [Elementary]

def applyOperator (symbol : String) (z w : Complex) : Except EvalError Complex :=
  match symbol with
  | "+" => .ok (z.add w)
  | "-" => .ok (z.sub w)
  | "*" => .ok (z.mul w)
  | "/" => z.div w
  | "**" | "^" => z.power w
  | _ => .error (.unknownOperator symbol)

/-- The degree of a root may have an imaginary part up to this. -/
def degreeBound : Float := 1e-12

/-- The floor of `x + 1/2`, where the sum is a double. -/
def roundHalfUp (x : Float) : Except Fault Int :=
  match Dyadic.ofFloat? (x + 0.5) with
  | some d => .ok d.floor
  | none => .error (if (x + 0.5).isNaN then .badValue else .outOfRange)

def applyRoot (z degree : Complex) : Except Failure Complex :=
  if degree.im.abs > degreeBound then .error (.eval (.complexDegree degree))
  else
    match roundHalfUp degree.re with
    | .ok n => z.nthRoot (.int n)
    | .error f => .error (.fault f)

/-- Arguments beyond those a function reads do not matter. -/
def applyFunction (name : String) (args : List Complex) : Except Failure Complex :=
  match name, args with
  | "conj", z :: _ => .ok z.conj
  | "sqrt", z :: _ => z.sqrt.mapError .fault
  | "root", z :: degree :: _ => applyRoot z degree
  | "conj", _ | "sqrt", _ | "root", _ => .error (.fault .missingArgument)
  | _, _ => .error (.eval (.unknownFunction name))

namespace Expr

mutual

def evaluate (env : Environment) : Expr → Except Failure Complex
  | lit t => (Complex.ofLiteral t).mapError .eval
  | var n => env.value n
  | unary _ e => do
    let z ← e.evaluate env
    return z.neg
  | binary op l r => do
    let z ← l.evaluate env
    let w ← r.evaluate env
    (applyOperator op z w).mapError .eval
  | call name args => do
    let zs ← evaluateAll env args
    applyFunction name zs

def evaluateAll (env : Environment) : List Expr → Except Failure (List Complex)
  | [] => .ok []
  | e :: es => do
    let z ← e.evaluate env
    let zs ← evaluateAll env es
    return z :: zs

end

end Expr

end Phasor
