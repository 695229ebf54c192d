import Phasor.Decimal.Text

/-!
# Numbers as given

A setting or an argument is given as an integer of any size or as a double, and messages repeat it in
the form it was given in. Comparisons are exact.
-/

namespace Phasor

inductive Scalar
  | int (n : Int)
  | double (x : Float)
deriving Repr, DecidableEq

namespace Scalar

/-- Fails for an integer beyond the range of doubles. -/
def toFloat? : Scalar → Option Float
  | int n => nearestInt? n
  | double x => some x

def isZero : Scalar → Bool
  | int n => n == 0
  | double x => x == 0

def exceeds (s : Scalar) (x : Float) : Bool :=
  match s with
  | double y => x < y
  | int n =>
    match Dyadic.ofFloat? x with
    | some d => d.floor < n
    | none => x < 0

/-- An integer and a double are the same if their values are. -/
def same : Scalar → Scalar → Bool
  | int m, int n => m == n
  | double x, double y => x == y
  | int n, double x | double x, int n =>
    (Dyadic.ofFloat? x).any fun d => d.isInteger && d.floor == n

/-- The double nearest to `1 / s`. -/
def reciprocal : Scalar → Float
  | int n => if n < 0 then -nearestRatio 1 n.natAbs else nearestRatio 1 n.natAbs
  | double x => 1 / x

def text : Scalar → String
  | int n => toString n
  | double x => Decimal.text x

end Scalar

end Phasor
