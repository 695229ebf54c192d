import Phasor.Text.Printable

/-!
# Quoted text

How messages show a piece of text: between single quotes, or between double quotes when it holds a
single quote and no double one. The quote in use and the backslash are escaped, line breaks and tabs
have letters of their own, and every other unprintable character is written in hexadecimal with two,
four or eight digits.
-/

namespace Phasor.Text

/-- The last `n` hexadecimal digits of `v`, in lower case. -/
def hexDigits : Nat → Nat → List Char
  | 0, _ => []
  | n + 1, v => hexDigits n (v / 16) ++ [Nat.digitChar (v % 16)]

def escape (quote c : Char) : List Char :=
  if c = quote || c = '\\' then ['\\', c]
  else if c = '\n' then ['\\', 'n']
  else if c = '\r' then ['\\', 'r']
  else if c = '\t' then ['\\', 't']
  else if isPrintable c then [c]
  else if c.toNat < 0x100 then '\\' :: 'x' :: hexDigits 2 c.toNat
  else if c.toNat < 0x10000 then '\\' :: 'u' :: hexDigits 4 c.toNat
  else '\\' :: 'U' :: hexDigits 8 c.toNat

def quoteMark (s : String) : Char :=
  if s.toList.contains '\x27' && !s.toList.contains '"' then '"' else '\x27'

def quoted (s : String) : String :=
  let q := quoteMark s
  String.ofList (q :: s.toList.flatMap (escape q) ++ [q])

/-- Items between square brackets. -/
def bracketed (items : List String) : String :=
  "[" ++ ", ".intercalate items ++ "]"

end Phasor.Text
