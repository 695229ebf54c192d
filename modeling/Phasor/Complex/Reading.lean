import Phasor.Failure
import Phasor.Numeral
import Phasor.Text.Blank

/-!
# Complex numbers in writing

`ofLiteral` reads a number of an expression, which is real or imaginary and finite. `ofInput` reads
what a user types, `3+4i`, `-2 - 3i`, `.5` or `i`: blanks do not count, both parts may be present,
and a numeral too large for a double gives an infinity.
-/

namespace Phasor.Complex

open Text

def ofLiteral (text : String) : Except EvalError Complex :=
  let cs := text.toList
  let read := match Numeral.imaginary? cs with
    | some y => some (0, y)
    | none => (Numeral.real? cs).map fun x => (x, 0)
  match read with
  | some (x, y) =>
    if x.isFinite && y.isFinite then .ok (ofParts x y) else .error (.invalidLiteral text)
  | none => .error (.invalidLiteral text)

def ofInput (text : String) : Except EvalError Complex :=
  let cs := squeeze text.toList
  match Numeral.real? cs, Numeral.imaginary? cs, Numeral.sum? cs with
  | some x, _, _ => .ok (ofParts x 0)
  | none, some y, _ => .ok (ofParts 0 y)
  | none, none, some (x, y) => .ok (ofParts x y)
  | none, none, none => .error (.invalidLiteral text)

end Phasor.Complex
