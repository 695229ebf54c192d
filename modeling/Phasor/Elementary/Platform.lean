import Phasor.Dyadic
import Phasor.Elementary

/-!
# The elementary functions of the platform

Lengths are computed here, as a compensated sum of the squares of the sides (`vectorNorm`). The other functions are
those that come with the platform.
-/

namespace Phasor

namespace VectorNorm

/-- A sum of numbers from 0 to 1. It begins with 1, and what its roundings take from it is kept apart, by the size of
what was added. -/
structure Sum where
  total : Float := 1
  large : Float := 0
  middle : Float := 0
  small : Float := 0

/-- What the sum of `total` and `x` lacks. -/
def lost (total x : Float) : Float := (total - (total + x)) + x

namespace Sum

def addLarge (s : Sum) (x : Float) : Sum := { s with total := s.total + x, large := s.large + lost s.total x }

def addMiddle (s : Sum) (x : Float) : Sum := { s with total := s.total + x, middle := s.middle + lost s.total x }

def addSmall (s : Sum) (x : Float) : Sum := { s with total := s.total + x, small := s.small + lost s.total x }

/-- The sum without the 1 that it began with. -/
def value (s : Sum) : Float := s.total - 1 + (s.large + s.middle + s.small)

end Sum

/-- The upper half of the digits of `x`. The products of halves have no more digits than a double. -/
def upper (x : Float) : Float :=
  let t := x * 134217729
  t - (t - x)

def lower (x : Float) : Float := x - upper x

def Sum.addSquare (s : Sum) (x : Float) : Sum :=
  let s := (s.addLarge (upper x * upper x)).addMiddle (2 * upper x * lower x)
  { s with small := s.small + lower x * lower x }

def Sum.subSquare (s : Sum) (x : Float) : Sum :=
  ((s.addLarge (-upper x * upper x)).addMiddle (-2 * upper x * lower x)).addSmall (-lower x * lower x)

/-- The length for sides of which the greater one is from 1/2 to below 1. One step of Newton's method makes the root of
the sum exact to about the last digit. -/
def scaled (x y : Float) : Float :=
  let s := (({} : Sum).addSquare x).addSquare y
  let h := Float.sqrt s.value
  h + (s.subSquare h).value / (2 * h)

/-- The root of the squares' sum for sides that are divided by the greater one. -/
def ratio (x y : Float) : Float :=
  let s := (({} : Sum).addLarge (x * x)).addLarge (y * y)
  Float.sqrt (s.total - 1 + s.large)

end VectorNorm

/-- The length of a pair of doubles that are not negative; `greater` is the greater one. -/
def vectorNormOf (x y greater : Float) : Float :=
  match Dyadic.ofFloat? greater with
  | none => 1 / 0
  | some d =>
    if greater == 0 then greater
    else
      -- the least `e` with `greater < 2 ^ e`
      let e := d.mantissa.log2 + 1 + d.exponent
      if -1023 ≤ e then
        let scale := powerOfTwo (-e)
        VectorNorm.scaled (x * scale) (y * scale) / scale
      else greater * VectorNorm.ratio (x / greater) (y / greater)

def vectorNorm (x y : Float) : Float :=
  if x.isInf || y.isInf then 1 / 0
  else if x.isNaN || y.isNaN then 0 / 0
  else vectorNormOf x.abs y.abs (if y.abs > x.abs then y.abs else x.abs)

instance Elementary.platform : Elementary where
  hypot := vectorNorm
  pow := Float.pow
  exp := Float.exp
  log := Float.log
  atan2 := Float.atan2
  cos := Float.cos
  sin := Float.sin

end Phasor
