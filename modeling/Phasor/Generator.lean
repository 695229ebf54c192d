import Phasor.Equivalence.Sampling

/-!
# The generator of the program

Numbers that are computed from the seed, the draw and the place alone, so that a draw can be repeated.
-/

namespace Phasor.Generator

/-- Spreads every bit of `x` over the whole word. -/
def mix (x : UInt64) : UInt64 :=
  let x := (x ^^^ (x >>> 30)) * 0xBF58476D1CE4E5B9
  let x := (x ^^^ (x >>> 27)) * 0x94D049BB133111EB
  x ^^^ (x >>> 31)

/-- A multiple of `2^-53`. -/
def unitFraction (seed : UInt64) (draw place : Nat) : Float :=
  let row := mix (seed + 0x9E3779B97F4A7C15 * UInt64.ofNat (draw + 1))
  let cell := mix (row + 0x9E3779B97F4A7C15 * UInt64.ofNat (place + 1))
  (cell >>> 11).toFloat / 9007199254740992

/-- Without a seed, `entropy` stands in. -/
def mixing (entropy : UInt64) : Generator
  | some seed => unitFraction (UInt64.ofNat seed)
  | none => unitFraction entropy

end Phasor.Generator
