import Phasor.Decimal.Shortest

/-!
# Doubles in writing

`text` writes the shortest decimal that reads back: positional where the leading digit stands between
the fourth decimal place and the sixteenth integer place, scientific elsewhere, a point always
present in positional form. `compact` is the same without a trailing `.0`, `tenDigits` is scientific
with ten significant digits, and `real` writes integers in full and everything else as `text`.
-/

namespace Phasor.Decimal

/-- An exponent has a sign and at least two digits. -/
def exponentText (e : Int) : String :=
  (if e < 0 then "e-" else "e+") ++ (if e.natAbs < 10 then "0" else "") ++ toString e.natAbs

/-- The digits `ds` with the point after the first, times `10^e`. -/
def scientific (ds : List Char) (e : Int) : String :=
  let mantissa := match ds with
    | d :: r@(_ :: _) => d :: '.' :: r
    | _ => ds
  String.ofList mantissa ++ exponentText e

/-- The digits `ds`, the first of them standing for `10^e`; `tail` follows an integer. -/
def positional (tail : String) (ds : List Char) (e : Int) : String :=
  if e < 0 then
    String.ofList ('0' :: '.' :: List.replicate (e.natAbs - 1) '0' ++ ds)
  else
    let n := e.toNat + 1
    if ds.length ≤ n then String.ofList (ds ++ List.replicate (n - ds.length) '0') ++ tail
    else String.ofList (ds.take n ++ '.' :: ds.drop n)

def dropTrailingZeros (ds : List Char) : List Char :=
  (ds.reverse.dropWhile (· == '0')).reverse

def layout (tail : String) (d : Decimal) : String :=
  let ds := Nat.toDigits 10 d.coefficient
  let e := d.power + ds.length - 1
  let ds := dropTrailingZeros ds
  if -4 ≤ e && e < 16 then positional tail ds e else scientific ds e

/-- Gives the sign and the names of what is not finite, and leaves a magnitude above zero to
`positive`; `zero` is written for both zeros. -/
def signed (zero : String) (positive : Dyadic → String) (x : Float) : String :=
  match Dyadic.ofFloat? x with
  | some d => (if d.negative then "-" else "") ++ (if d.mantissa = 0 then zero else positive d)
  | none => if x.isNaN then "nan" else if x < 0 then "-inf" else "inf"

def text (x : Float) : String := signed "0.0" (fun d => layout ".0" (shortest x.abs d)) x

def compact (x : Float) : String := signed "0" (fun d => layout "" (shortest x.abs d)) x

/-- A carry out of the tenth digit moves the exponent. -/
def tenDigits (x : Float) : String :=
  let positive (d : Dyadic) :=
    let k := leadingPower d.num d.den
    let c := roundHalfEven (d.num * Nat.pow 10 (9 - k).toNat) (d.den * Nat.pow 10 (k - 9).toNat)
    let ds := Nat.toDigits 10 c
    scientific (ds.take 10) (k + ds.length - 10)
  signed "0.000000000e+00" positive x

def real (x : Float) : String :=
  match Dyadic.ofFloat? x with
  | some d => if d.isInteger then toString d.floor else text x
  | none => text x

end Phasor.Decimal
