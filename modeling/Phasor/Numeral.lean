import Phasor.Decimal.Shortest

/-!
# Decimal numerals

What a user may type for a number: digits with an optional point, or a point and digits, then
perhaps an exponent. `real?` reads a numeral with an optional sign and `imaginary?` one with the
suffix `i`, where the numeral itself may be left out.
-/

namespace Phasor

structure Numeral where
  whole : List Char
  fraction : List Char
  power : Int
deriving Repr, DecidableEq

namespace Numeral

/-- The nearest double. -/
def value (n : Numeral) : Float :=
  Decimal.toFloat ⟨Nat.ofDigitChars 10 (n.whole ++ n.fraction) 0, n.power - n.fraction.length⟩

/-- Whether the text starts with a minus sign, and the text after an optional sign. -/
def takeSign : List Char → Bool × List Char
  | '+' :: r => (false, r)
  | '-' :: r => (true, r)
  | cs => (false, cs)

def takeDigits (cs : List Char) : List Char × List Char :=
  (cs.takeWhile Char.isDigit, cs.dropWhile Char.isDigit)

def takeFraction : List Char → List Char × List Char
  | '.' :: r => takeDigits r
  | cs => ([], cs)

/-- An `e` without digits after it is left where it is. -/
def takePower (cs : List Char) : Int × List Char :=
  match cs with
  | c :: r =>
    if c = 'e' || c = 'E' then
      let (negative, r) := takeSign r
      let (ds, rest) := takeDigits r
      let p := Int.ofNat (Nat.ofDigitChars 10 ds 0)
      if ds.isEmpty then (0, cs) else (if negative then -p else p, rest)
    else (0, cs)
  | [] => (0, cs)

/-- The longest numeral at the front of the text, and what follows it. -/
def take? (cs : List Char) : Option (Numeral × List Char) :=
  let (whole, r) := takeDigits cs
  let (fraction, r) := takeFraction r
  if whole.isEmpty && fraction.isEmpty then none
  else
    let (power, r) := takePower r
    some (⟨whole, fraction, power⟩, r)

def withSign (negative : Bool) (x : Float) : Float := if negative then -x else x

def real? (cs : List Char) : Option Float :=
  let (negative, r) := takeSign cs
  match take? r with
  | some (n, []) => some (withSign negative n.value)
  | _ => none

def imaginary? (cs : List Char) : Option Float :=
  let (negative, r) := takeSign cs
  if r = ['i'] then some (withSign negative 1)
  else
    match take? r with
    | some (n, ['i']) => some (withSign negative n.value)
    | _ => none

/-- A real and an imaginary part, the second with a sign. -/
def sum? (cs : List Char) : Option (Float × Float) :=
  let (negative, r) := takeSign cs
  match take? r with
  | some (n, s :: r) =>
    if s = '+' || s = '-' then (imaginary? (s :: r)).map fun y => (withSign negative n.value, y)
    else none
  | _ => none

end Numeral

end Phasor
