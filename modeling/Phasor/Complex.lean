import Phasor.Scalar

/-!
# Complex numbers

Pairs of doubles without a negative zero, the operations on them that cannot fail, and their text:
each part rounded to ten places, integers in full, an imaginary part that rounds to zero left out.
-/

namespace Phasor

structure Complex where
  re : Float
  im : Float
deriving Repr, DecidableEq

namespace Complex

/-- Turns a negative zero into zero, so that the angle of a negative real is `π` and never `-π`. -/
def ofParts (re im : Float) : Complex := ⟨re + 0, im + 0⟩

def one : Complex := ⟨1, 0⟩

def add (z w : Complex) : Complex := ofParts (z.re + w.re) (z.im + w.im)

def sub (z w : Complex) : Complex := ofParts (z.re - w.re) (z.im - w.im)

def mul (z w : Complex) : Complex :=
  ofParts (z.re * w.re - z.im * w.im) (z.re * w.im + z.im * w.re)

def neg (z : Complex) : Complex := ofParts (-z.re) (-z.im)

def conj (z : Complex) : Complex := ofParts z.re (-z.im)

def isFinite (z : Complex) : Bool := z.re.isFinite && z.im.isFinite

/-- Equality of doubles in both parts, which fails for NaN. -/
def sameValue (z w : Complex) : Bool := z.re == w.re && z.im == w.im

/-- The parts differ by less than `tolerance` each. -/
def near (z w : Complex) (tolerance : Scalar) : Bool :=
  tolerance.exceeds (z.re - w.re).abs && tolerance.exceeds (z.im - w.im).abs

def defaultTolerance : Scalar := .double 1e-8

/-- Parts are shown to this many decimal places. -/
def shownPlaces : Nat := 10

/-- Rounded parts below this are shown as zero. -/
def shownZero : Float := 1e-12

def text (z : Complex) : String :=
  let re := Decimal.roundPlaces shownPlaces z.re
  let im := Decimal.roundPlaces shownPlaces z.im
  let real := if re.abs < shownZero then "0" else Decimal.real re
  if im.abs < shownZero then real
  else
    let sign := if im ≥ 0 then "+" else "-"
    let size := if im.abs == 1 then "" else Decimal.real im.abs
    real ++ sign ++ size ++ "i"

end Complex

end Phasor
