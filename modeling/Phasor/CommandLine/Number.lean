import Phasor.Numeral
import Phasor.Text.Blank
import Phasor.Text.DecimalDigit

/-!
# Numbers as arguments

The value of an option may have blanks around it, underscores between its digits and the digits of any
script. An integer is a sign and digits; a float is a numeral, an infinity or NaN.
-/

namespace Phasor.CommandLine

open Text

/-- Blanks but the four ASCII separators. -/
def isPadding (c : Char) : Bool := isBlank c && !(0x1C ≤ c.toNat && c.toNat ≤ 0x1F)

/-- Underscores may stand between digits and are left out. -/
def dropUnderscores : List Char → Option (List Char)
  | a :: '_' :: b :: cs =>
    if a.isDigit && b.isDigit then (dropUnderscores (b :: cs)).map (a :: ·) else none
  | '_' :: _ => none
  | c :: cs => (dropUnderscores cs).map (c :: ·)
  | [] => some []

def characters (text : String) : List Char := (trim isPadding text.toList).map asciiDigit

/-- The longest integer that is read. -/
def maxDigits : Nat := 4300

def readInt? (text : String) : Option Int := do
  let (negative, ds) := Numeral.takeSign (← dropUnderscores (characters text))
  if ds.isEmpty || maxDigits < ds.length || !ds.all Char.isDigit then none
  else
    let n := Int.ofNat (Nat.ofDigitChars 10 ds 0)
    some (if negative then -n else n)

def readFloat? (text : String) : Option Float :=
  let (negative, cs) := Numeral.takeSign (characters text)
  let word := String.ofList (cs.map Char.toLower)
  if word = "nan" then some (0 / 0)
  else if word = "inf" || word = "infinity" then some (Numeral.withSign negative (1 / 0))
  else do Numeral.real? (← dropUnderscores (characters text))

end Phasor.CommandLine
