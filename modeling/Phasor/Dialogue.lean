import Phasor.Event
import Phasor.Postfix

/-!
# Dialogues

A dialogue shows events and reads lines, and may stop early: at the end of the input, or with a
failure. `ask` reads one answer, `complete` asks for the variables that have no value yet, and
`readExpr` and `check` are parsing and comparing with their debug lines.
-/

namespace Phasor

open Text

structure Console where
  /-- The lines still to be read. -/
  lines : List String
  /-- The number of environments drawn so far. -/
  drawn : Nat
  events : List Event

inductive Stop
  | endOfInput
  | failure (f : Failure)

abbrev Dialogue := ExceptT Stop (StateM Console)

namespace Dialogue

def emit (es : List Event) : Dialogue Unit :=
  modify fun c => { c with events := c.events ++ es }

def say (s : String) : Dialogue Unit := emit [.text s]

def fail {α : Type} (f : Failure) : Dialogue α := throw (.failure f)

def ofExcept {α : Type} : Except Failure α → Dialogue α
  | .ok a => pure a
  | .error f => fail f

def ofParse {α : Type} : Except ParseError α → Dialogue α
  | .ok a => pure a
  | .error e => fail (.parse e)

def ofFault {α : Type} : Except Fault α → Dialogue α
  | .ok a => pure a
  | .error f => fail (.fault f)

def promptFor (label : String) : Event := .prompt (label ++ ": ")

/-- Blanks at both ends of an answer do not count. -/
def ask (label : String) : Dialogue String := do
  emit [promptFor label]
  let c ← get
  match c.lines with
  | [] => throw .endOfInput
  | l :: ls =>
    set { c with lines := ls }
    return strip l

/-! ### Values for variables -/

def valueLabel (name : String) : String := "Value for variable " ++ name ++ " (e.g. 3+4i)"

/-- Asks until an answer is a complex number. Gives the events, and the value with the lines left
over unless the input ends first. -/
def readValue (name : String) : List String → List Event × Option (Complex × List String)
  | [] => ([promptFor (valueLabel name)], none)
  | l :: ls =>
    match Complex.ofInput (strip l) with
    | .ok z => ([promptFor (valueLabel name)], some (z, ls))
    | .error e =>
      let (events, result) := readValue name ls
      (promptFor (valueLabel name) :: .text ("Invalid input: " ++ e.message) :: events, result)

/-- Asks in turn for each of the names that `env` does not bind. -/
def complete (env : Environment) :
    List String → List String → List Event × Option (Environment × List String)
  | [], lines => ([], some (env, lines))
  | n :: ns, lines =>
    if env.binds n then complete env ns lines
    else
      match readValue n lines with
      | (events, none) => (events, none)
      | (events, some (z, rest)) =>
        let (more, result) := complete (env.bind n (.complex z)) ns rest
        (events ++ more, result)

def askValues (names : List String) (env : Environment) : Dialogue Environment := do
  let c ← get
  match complete env names c.lines with
  | (events, none) =>
    set { c with lines := [], events := c.events ++ events }
    throw .endOfInput
  | (events, some (env, rest)) =>
    set { c with lines := rest, events := c.events ++ events }
    return env

/-! ### Expressions -/

def readExpr (text : String) : Dialogue Expr := do
  let tokens ← ofParse (Token.scan text)
  let items ← ofParse (Postfix.arrange tokens)
  emit [.debug ("postfix: " ++ " ".intercalate (items.map Postfix.describe))]
  ofExcept (Postfix.build items)

/-- The draws of all checks in a dialogue are counted on. -/
def check [Elementary] (s : Settings) (numbers : Sampling.Numbers) (a b : Expr) : Dialogue Report := do
  let c ← get
  let draws := Sampling.draw s numbers (Check.names a b)
  let outcome := Check.run s draws a b c.drawn
  let debug := outcome.notes.map fun n => Event.debug n.text
  set { c with drawn := outcome.drawn, events := c.events ++ debug }
  ofExcept outcome.result

end Dialogue

end Phasor
