/-!
# Doubles as exact numbers

`Dyadic` is a finite double written out as `±mantissa · 2^exponent`, with its floor and the test for
integers. `nearestRatio`, `nearestInt?` and `powerOfTwo` go the other way: the double nearest to an exact
quotient, integer or power of two, a tie going to the even mantissa.
-/

namespace Phasor

open Float.Model (UnpackedFloat)

structure Dyadic where
  negative : Bool
  mantissa : Nat
  exponent : Int
deriving Repr, DecidableEq

namespace Dyadic

/-- Infinities and NaN have no such form; both zeros have mantissa 0. -/
def ofFloat? (x : Float) : Option Dyadic :=
  match x.toModel.unpack with
  | .zero s => some ⟨s == .negative, 0, 0⟩
  | .finite s m e _ => some ⟨s == .negative, m, e⟩
  | .infinity _ => none
  | .notANumber => none

/-- The magnitude is `num / den`. -/
def num (d : Dyadic) : Nat := d.mantissa * Nat.pow 2 d.exponent.toNat

def den (d : Dyadic) : Nat := Nat.pow 2 (-d.exponent).toNat

def signedNum (d : Dyadic) : Int := if d.negative then -d.num else d.num

def isInteger (d : Dyadic) : Bool := d.num % d.den == 0

def floor (d : Dyadic) : Int := d.signedNum / d.den

theorem den_pos (d : Dyadic) : 0 < d.den := Nat.pow_pos (by decide)

end Dyadic

def isInteger (x : Float) : Bool := (Dyadic.ofFloat? x).any Dyadic.isInteger

private def ofUnpacked (u : UnpackedFloat) : Float := .ofModel (.pack u)

/-- The double nearest to `num / den`; an infinity where `den` is 0. -/
def nearestRatio (num den : Nat) : Float :=
  if hn : 0 < num then
    if hd : 0 < den then
      ofUnpacked (.div .binary64 (.finite .positive num 0 hn) (.finite .positive den 0 hd))
    else 1 / 0
  else 0

/-- Fails where the nearest double would be infinite. -/
def nearestInt? (n : Int) : Option Float :=
  let x := Float.ofInt n
  if x.isFinite then some x else none

/-- The double nearest to `2 ^ k`. -/
def powerOfTwo (k : Int) : Float := ofUnpacked (.round .binary64 .positive 1 k)

end Phasor
