import Phasor.Elementary
import Phasor.Failure

/-!
# Quotients, powers and roots

The length and the angle of complex numbers, and the operations on them that can fail. A real integer
exponent multiplies repeatedly and stops at the first product that is not finite; every other exponent
and all roots but the square root go through the polar form.
-/

namespace Phasor

/-- How a real power or exponential fails. -/
inductive RangeError
  | zeroDivisor
  | overflow
deriving Repr, DecidableEq

variable [Elementary]

/-- `r ^ a` for `0 ≤ r`. Only finite arguments fail. -/
def realPower (r a : Float) : Except RangeError Float :=
  if r == 0 && a < 0 && a.isFinite then .error .zeroDivisor
  else
    let p := Elementary.pow r a
    if p.isInf && r.isFinite && a.isFinite then .error .overflow else .ok p

def realExp (x : Float) : Except RangeError Float :=
  let y := Elementary.exp x
  if y.isInf && x.isFinite then .error .overflow else .ok y

/-- Numbers below zero have no real root. -/
def realSqrt (x : Float) : Except Fault Float := if x < 0 then .error .badValue else .ok (Float.sqrt x)

/-- A function of an angle, such as the cosine or the sine; an infinite angle has neither. -/
def atAngle (f : Float → Float) (θ : Float) : Except Fault Float := if θ.isInf then .error .badValue else .ok (f θ)

namespace Complex

def magnitude (z : Complex) : Float := Elementary.hypot z.re z.im

def angle (z : Complex) : Float := Elementary.atan2 z.im z.re

/-- The number with the length `r` and the angle `θ`. -/
def ofPolar (r θ : Float) : Except Fault Complex := do
  let c ← atAngle Elementary.cos θ
  let s ← atAngle Elementary.sin θ
  return ofParts (r * c) (r * s)

/-- Fails where the squared length of the divisor is zero. -/
def div (z w : Complex) : Except EvalError Complex :=
  let d := w.re * w.re + w.im * w.im
  if d == 0 then .error .zeroDivisor
  else .ok (ofParts ((z.re * w.re + z.im * w.im) / d) ((z.im * w.re - z.re * w.im) / d))

/-- `acc` times `z`, `n` times, as long as the products are finite. -/
def mulTimes (z : Complex) : Nat → Complex → Option Complex
  | 0, acc => some acc
  | n + 1, acc => if (acc.mul z).isFinite then mulTimes z n (acc.mul z) else none

/-- A negative exponent inverts the power of the opposite one. -/
def intPower (z : Complex) (n : Int) : Except EvalError Complex :=
  match mulTimes z n.natAbs one with
  | none => .error .overflow
  | some p => if n < 0 then one.div p else .ok p

/-- Imaginary parts of an exponent below this count as zero. -/
def realExponentBound : Float := 1e-14

/-- The integer an exponent stands for, if it does. -/
def intExponent? (w : Complex) : Option Int :=
  if w.im.abs < realExponentBound then
    match Dyadic.ofFloat? w.re with
    | some d => if d.isInteger then some d.floor else none
    | none => none
  else none

/-- Lengths below this count as this in a logarithm. -/
def logFloor : Float := 1e-300

/-- `(r·e^{iθ})^{a+ci} = r^a·e^{-cθ}·e^{i(aθ + c·ln r)}`. -/
def polarPower (z w : Complex) : Except EvalError Complex :=
  let r := z.magnitude
  let θ := z.angle
  let size : Except RangeError Float := do
    let p ← realPower r w.re
    let e ← realExp (-w.im * θ)
    return p * e
  match size with
  | .error .zeroDivisor => .error .negativePowerOfZero
  | .error .overflow => .error .overflow
  | .ok m =>
    let φ := w.re * θ + w.im * Elementary.log (if logFloor > r then logFloor else r)
    if m.isFinite && φ.isFinite then
      let p := ofParts (m * Elementary.cos φ) (m * Elementary.sin φ)
      if p.isFinite then .ok p else .error .overflow
    else .error .overflow

def power (z w : Complex) : Except EvalError Complex :=
  match w.intExponent? with
  | some n => z.intPower n
  | none => z.polarPower w

/-- The principal root; the sign of its imaginary part is that of the argument's. -/
def sqrt (z : Complex) : Except Fault Complex := do
  let r := z.magnitude
  let re ← realSqrt ((r + z.re) / 2)
  let im ← realSqrt ((r - z.re) / 2)
  return ofParts re (if z.im < 0 then -im else im)

/-- The principal root of a degree that is a nonzero integer within the range of doubles. -/
def nthRoot (z : Complex) (degree : Scalar) : Except Failure Complex :=
  if degree.isZero then .error (.eval (.invalidDegree degree))
  else
    match degree.toFloat? with
    | none => .error (.fault .outOfRange)
    | some n =>
      if !isInteger n then .error (.eval (.invalidDegree degree))
      else
        match realPower z.magnitude degree.reciprocal with
        | .error .zeroDivisor => .error (.eval .negativeRootOfZero)
        | .error .overflow => .error (.fault .outOfRange)
        | .ok m => (ofPolar m (z.angle / n)).mapError .fault

end Complex

end Phasor
