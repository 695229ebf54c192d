/-!
# Elementary functions

Lengths, powers, exponentials, logarithms, angles, cosines and sines of doubles are approximated, and how well depends
on where a program runs. `Elementary` is what a program is given, and `Elementary.Lawful` what is documented of these
functions wherever they are computed.
-/

namespace Phasor

class Elementary where
  /-- The length of the hypotenuse, `√(x² + y²)`. -/
  hypot : Float → Float → Float
  pow : Float → Float → Float
  exp : Float → Float
  log : Float → Float
  /-- The angle of the point `(x, y)`, given as `y` and `x`. -/
  atan2 : Float → Float → Float
  cos : Float → Float
  sin : Float → Float

namespace Elementary

/-- The ranges of the functions, and their values at infinities and NaN. A length is computed to about the last digit and
not below either side. -/
structure Lawful [Elementary] : Prop where
  hypot_infinity (x y : Float) (h : x.isInf = true ∨ y.isInf = true) : hypot x y = 1 / 0
  hypot_nan (x y : Float) (hx : x.isInf = false) (hy : y.isInf = false) (h : x.isNaN = true ∨ y.isNaN = true) :
    (hypot x y).isNaN = true
  le_hypot (x y : Float) (hx : x.isFinite = true) (hy : y.isFinite = true) : x.abs ≤ hypot x y ∧ y.abs ≤ hypot x y
  pow_nonneg (r a : Float) (hr : 0 ≤ r) (ha : a.isFinite = true) : 0 ≤ pow r a
  pow_infinity (a : Float) (ha : 0 < a) : pow (1 / 0) a = 1 / 0
  pow_infinity_of_neg (a : Float) (ha : a < 0) : pow (1 / 0) a = 0
  atan2_range (y x : Float) (hy : y.isNaN = false) (hx : x.isNaN = false) : (atan2 y x).abs ≤ 3.141592653589793
  atan2_nan (y x : Float) (h : y.isNaN = true ∨ x.isNaN = true) : (atan2 y x).isNaN = true
  cos_range (x : Float) (hx : x.isFinite = true) : (cos x).abs ≤ 1
  sin_range (x : Float) (hx : x.isFinite = true) : (sin x).abs ≤ 1

end Elementary

end Phasor
