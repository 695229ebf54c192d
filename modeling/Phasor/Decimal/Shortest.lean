import Phasor.Decimal.Rounding

/-!
# The shortest decimal that reads back

`shortest x d` is the decimal with the fewest digits among those whose nearest double is `x`, and of
these the one closest to `x`, where `d` is `x` written out. Only the two grid points around `x` are
candidates: a grid that has a point which reads back has one among those two.
-/

namespace Phasor

/-- The number `coefficient · 10^power`. -/
structure Decimal where
  coefficient : Nat
  power : Int
deriving Repr, DecidableEq

namespace Decimal

/-- The nearest double. -/
def toFloat (d : Decimal) : Float :=
  Float.ofScientific d.coefficient (d.power < 0) d.power.natAbs

/-- The candidate with `n` digits, where `k` is the leading power of `d`. -/
def withDigits? (x : Float) (d : Dyadic) (k : Int) (n : Nat) : Option Decimal :=
  let power := k - n + 1
  let a := d.num * Nat.pow 10 (-power).toNat
  let b := d.den * Nat.pow 10 power.toNat
  let c := a / b
  let below : Decimal := ⟨c, power⟩
  let above : Decimal := ⟨c + 1, power⟩
  match below.toFloat == x, above.toFloat == x with
  | true, true => some ⟨roundHalfEven a b, power⟩
  | true, false => some below
  | false, true => some above
  | false, false => none

/-- The whole decimal expansion of a dyadic number. -/
def exact (d : Dyadic) : Decimal :=
  ⟨d.num * Nat.pow 5 (-d.exponent).toNat, -(-d.exponent).toNat⟩

/-- Seventeen digits always read back, so the full expansion is never needed. -/
def shortest (x : Float) (d : Dyadic) : Decimal :=
  let k := leadingPower d.num d.den
  ((List.range' 1 17).findSome? (withDigits? x d k)).getD (exact d)

end Decimal

end Phasor
