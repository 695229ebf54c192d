import Phasor.CommandLine
import Phasor.Elementary.Platform
import Phasor.Generator
import Phasor.Layout

/-!
# The program

Reads a line whenever the program would wait for one, runs the program on all lines so far and shows
the events that are new.
-/

namespace Phasor

def showEvents (es : List Event) : IO Unit := do
  let out ← IO.getStdout
  for e in es do
    out.putStr (Layout.text e)
  out.flush

def finish (e : Ending) : IO UInt32 := do
  if let some notice := e.notice? then
    IO.eprintln notice
  return UInt32.ofNat e.code

partial def converse (generator : Generator) (args lines : List String) (shown : Nat) : IO UInt32 := do
  let t := runProgram generator args lines
  showEvents (t.events.drop shown)
  match t.farewell? with
  | none => finish t.ending
  | some farewell =>
    let l ← (← IO.getStdin).getLine
    if l.isEmpty then
      showEvents farewell
      finish t.ending
    else converse generator args (lines ++ [l]) t.events.length

end Phasor

def main (args : List String) : IO UInt32 := do
  let entropy ← IO.rand 0 (Nat.pow 2 62)
  Phasor.converse (Phasor.Generator.mixing (UInt64.ofNat entropy)) args [] 0
