import Phasor.Dialogue
import Phasor.UsageError

/-!
# Commands and the interactive session

`Command.run` carries out one command of the command line on a list of input lines. The interactive
session is a sequence of rounds: each shows the menu, reads a choice and carries it out, and only a
choice to quit, the end of the input or a fault ends the session.
-/

namespace Phasor

open Text

inductive Ending
  | exit (code : Nat)
  /-- The command line cannot be understood. -/
  | usage (e : UsageError)
  /-- The input ended at a question of a command. -/
  | aborted
  | crashed (f : Fault)
deriving Repr, DecidableEq

namespace Ending

def code : Ending → Nat
  | exit n => n
  | usage _ => 2
  | aborted => 1
  | crashed _ => 1

/-- A line about the ending itself. -/
def notice? : Ending → Option String
  | usage e => some ("Error: " ++ e.message)
  | aborted => some "Aborted!"
  | _ => none

end Ending

structure Transcript where
  events : List Event
  /-- Present if the input ended before the program did; shown after the events in that case. -/
  farewell? : Option (List Event)
  ending : Ending
deriving Repr

namespace Transcript

def allEvents (t : Transcript) : List Event := t.events ++ t.farewell?.getD []

def after (t : Transcript) (events : List Event) : Transcript := { t with events := events ++ t.events }

def withoutDebug (t : Transcript) : Transcript :=
  { t with events := t.events.filter fun e => !e.isDebug }

/-- A failure ends a command: an error with its message, a fault without. -/
def failed (events : List Event) (f : Failure) : Transcript :=
  match f with
  | .fault g => ⟨events, none, .crashed g⟩
  | f => ⟨events ++ [.text ("Error: " ++ f.message?.getD "")], none, .exit 1⟩

end Transcript

/-! ### The interactive session -/

namespace Session

open Dialogue

variable [Elementary]

def menu : String :=
  "\n=== Complex Number Calculator ===\n1) Evaluate expression\n2) Show LISP tree of expression\n" ++
    "3) Check equality of two expressions (numerical)\n4) Quit"

def evaluateChoice : Dialogue Unit := do
  let e ← readExpr (← ask "Expression")
  let env ← askValues e.variables []
  let z ← ofExcept (e.evaluate env)
  say ("Result: " ++ z.text)

def treeChoice : Dialogue Unit := do
  let e ← readExpr (← ask "Expression")
  say ("Tree (LISP): " ++ e.render)

def compareChoice (numbers : Sampling.Numbers) : Dialogue Unit := do
  let a ← readExpr (← ask "Expression 1")
  let b ← readExpr (← ask "Expression 2")
  let report ← check {} numbers a b
  emit (← ofFault (showReport report))

def choice (numbers : Sampling.Numbers) (option : String) : Dialogue Unit :=
  if option = "1" then evaluateChoice
  else if option = "2" then treeChoice
  else if option = "3" then compareChoice numbers
  else say "Invalid option"

/-- Shows an error and goes on; faults are not errors. -/
def guarded (d : Dialogue Unit) : Dialogue Unit :=
  tryCatch d fun
    | .failure (.fault f) => fail (.fault f)
    | .failure f => say ("Error: " ++ f.message?.getD "")
    | .endOfInput => throw .endOfInput

/-- Whether the session goes on. -/
def round (numbers : Sampling.Numbers) : Dialogue Bool := do
  say menu
  let option ← ask "Choice"
  if option = "4" then
    say "Exiting..."
    return false
  else
    guarded (choice numbers option)
    return true

def runRound (numbers : Sampling.Numbers) (lines : List String) (drawn : Nat) : Except Stop Bool × Console :=
  (round numbers).run.run ⟨lines, drawn, []⟩

/-- Every round that the session survives has read a line. -/
def run (numbers : Sampling.Numbers) (lines : List String) (drawn : Nat) : Transcript :=
  match runRound numbers lines drawn with
  | (.ok true, c) =>
    if c.lines.length < lines.length then (run numbers c.lines c.drawn).after c.events
    else ⟨c.events, none, .exit 0⟩
  | (.ok false, c) => ⟨c.events, none, .exit 0⟩
  | (.error .endOfInput, c) => ⟨c.events, some [.text "\nExiting..."], .exit 0⟩
  | (.error (.failure f), c) => .failed c.events f
termination_by lines.length

end Session

/-! ### Commands -/

inductive Command
  | eval (text : String) (bindings : List String) (prompting : Bool)
  | tree (text : String) (drawing : Bool)
  | equiv (first second : String) (settings : Settings)
  | repl

namespace Command

open Dialogue

variable [Elementary]

/-- Reads `NAME=VALUE`; later bindings of a name replace earlier ones. -/
def readBindings (env : Environment) : List String → Except UsageError Environment
  | [] => .ok env
  | b :: bs =>
    let cs := b.toList
    let name := strip (String.ofList (cs.takeWhile (· != '=')))
    match cs.dropWhile (· != '=') with
    | [] => .error (.notBinding b)
    | _ :: value =>
      if name.isEmpty then .error (.notBinding b)
      else
        match Complex.ofInput (String.ofList value) with
        | .ok z => readBindings (env.bind name (.complex z)) bs
        | .error e => .error (.badBinding e)

def evalDialogue (text : String) (env : Environment) (prompting : Bool) : Dialogue Unit := do
  let e ← readExpr text
  let env ← if prompting then askValues e.variables env else pure env
  let z ← ofExcept (e.evaluate env)
  emit (showResult e z env)

def treeDialogue (text : String) (drawing : Bool) : Dialogue Unit := do
  let e ← readExpr text
  if drawing then emit (showTree e) else say ("Tree (LISP): " ++ e.render)

def equivDialogue (first second : String) (s : Settings) (generator : Generator) : Dialogue Unit := do
  let seed ← ofFault (Sampling.seed? s)
  let a ← readExpr first
  let b ← readExpr second
  let report ← check s (generator seed) a b
  emit (← ofFault (showReport report))

def runDialogue (d : Dialogue Unit) (lines : List String) : Transcript :=
  match d.run.run ⟨lines, 0, []⟩ with
  | (.ok (), c) => ⟨c.events, none, .exit 0⟩
  | (.error .endOfInput, c) => ⟨c.events, some [], .aborted⟩
  | (.error (.failure f), c) => .failed c.events f

/-- The session has no seed. -/
def run (c : Command) (generator : Generator) (lines : List String) : Transcript :=
  match c with
  | eval text bindings prompting =>
    match readBindings [] bindings with
    | .error e => ⟨[], none, .usage e⟩
    | .ok env => runDialogue (evalDialogue text env prompting) lines
  | tree text drawing => runDialogue (treeDialogue text drawing) lines
  | equiv first second s => runDialogue (equivDialogue first second s generator) lines
  | repl => Session.run (generator none) lines 0

end Command

end Phasor
