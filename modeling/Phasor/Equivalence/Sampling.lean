import Phasor.Environment

/-!
# Settings and samples

The settings of an equivalence check and the environments drawn for it. A draw binds every name to a
complex number whose parts lie between the two bounds, where the numbers of the draw put them.
-/

namespace Phasor

structure Settings where
  trials : Int := 6
  tolerance : Scalar := .double 1e-7
  low : Scalar := .double (-5)
  high : Scalar := .double 5
  /-- The number of draws that may be discarded; with none, the first error is final. -/
  maxRetries : Int := 1000
  seed : Option Int := none
deriving Repr

namespace Sampling

/-- Numbers from 0 to below 1, by the draw and the place in it. -/
abbrev Numbers := Nat → Nat → Float

/-- Seeds are naturals. -/
def seed? (s : Settings) : Except Fault (Option Nat) :=
  match s.seed with
  | some n => if n < 0 then .error .badValue else .ok (some n.toNat)
  | none => .ok none

/-- The lower bound and the width of the range, which may not have a minus sign. -/
def range (s : Settings) : Except Fault (Float × Float) :=
  match s.low.toFloat?, s.high.toFloat? with
  | some low, some high =>
    let width := high - low
    if !width.isFinite then .error .outOfRange
    else if (Dyadic.ofFloat? width).any Dyadic.negative then .error .badValue
    else .ok (low, width)
  | _, _ => .error .outOfRange

def bindAll (part : Nat → Float) (env : Environment) : Nat → List String → Environment
  | _, [] => env
  | place, n :: ns =>
    let z := Complex.ofParts (part (2 * place)) (part (2 * place + 1))
    bindAll part (env.bind n (.complex z)) (place + 1) ns

def draw (s : Settings) (numbers : Numbers) (names : List String) (k : Nat) :
    Except Fault Environment :=
  match range s with
  | .error f => .error f
  | .ok (low, width) => .ok (bindAll (fun i => low + width * numbers k i) [] 0 names)

/-- Whether `x` lies between the bounds as they are given. -/
def admits (s : Settings) (x : Float) : Bool :=
  !s.low.exceeds x && (s.high.exceeds x || s.high.same (.double x))

end Sampling

/-- The numbers for a seed, or without one. -/
abbrev Generator := Option Nat → Sampling.Numbers

end Phasor
