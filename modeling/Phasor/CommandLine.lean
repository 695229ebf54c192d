import Phasor.CommandLine.Number
import Phasor.Session
import Phasor.Text.Alphanumeric
import Phasor.Text.Similarity

/-!
# The command line

`CommandLine.read` turns arguments into a command. Options may stand anywhere among the arguments of a
command, `--` ends them, a value follows its option or an equals sign, and the last value of an
option counts. The first thing wrong with the arguments is the error.
-/

namespace Phasor

open Text

namespace CommandLine

/-! ### Splitting arguments -/

/-- The options of a command, long ones with their dashes. -/
structure Options where
  flags : List String
  letters : List Char
  valued : List String

/-- What one argument is. -/
inductive Kind
  | plain
  | flags (names : List String)
  | value (name value : String)
  /-- The value is the next argument. -/
  | needsValue (name : String)
  | wrong (e : UsageError)

/-- Letters after one dash, each a flag of its own. -/
def letterFlags (o : Options) : List Char → Kind
  | [] => .flags []
  | c :: cs =>
    if o.letters.contains c then
      match letterFlags o cs with
      | .flags names => .flags (String.ofList ['-', c] :: names)
      | k => k
    else .wrong (.unknownOption (String.ofList ['-', c]) [])

def classify (o : Options) (arg : String) : Kind :=
  match arg.toList with
  | '-' :: c :: cs =>
    let name := String.ofList (arg.toList.takeWhile (· != '='))
    let value? := match arg.toList.dropWhile (· != '=') with
      | _ :: v => some (String.ofList v)
      | [] => none
    if o.valued.contains name then
      match value? with
      | some v => .value name v
      | none => .needsValue name
    else if o.flags.contains name then
      if value?.isSome then .wrong (.valueGiven name) else .flags [name]
    else if c = '-' then .wrong (.unknownOption name (closest name (o.flags ++ o.valued)))
    else letterFlags o (c :: cs)
  | _ => .plain

structure Split where
  flags : List String
  /-- In the order given. -/
  values : List (String × String)
  plain : List String

namespace Split

def withFlags (s : Split) (names : List String) : Split := { s with flags := names ++ s.flags }

def withValue (s : Split) (name value : String) : Split :=
  { s with values := (name, value) :: s.values }

def withPlain (s : Split) (arg : String) : Split := { s with plain := arg :: s.plain }

/-- Where `mixed` is false, options end at the first plain argument. -/
def ofArgs (o : Options) (mixed : Bool) : List String → Except UsageError Split
  | [] => .ok ⟨[], [], []⟩
  | "--" :: args => .ok ⟨[], [], args⟩
  | arg :: args =>
    match classify o arg with
    | .plain => if mixed then (ofArgs o mixed args).map (·.withPlain arg) else .ok ⟨[], [], arg :: args⟩
    | .flags names => (ofArgs o mixed args).map (·.withFlags names)
    | .value name v => (ofArgs o mixed args).map (·.withValue name v)
    | .needsValue name =>
      match args with
      | [] => .error (.valueMissing name)
      | v :: args => (ofArgs o mixed args).map (·.withValue name v)
    | .wrong e => .error e

def has (s : Split) (flag : String) : Bool := s.flags.contains flag

/-- All values given to an option. -/
def all (s : Split) (name : String) : List String :=
  s.values.filterMap fun (n, v) => if n = name then some v else none

/-- The options that have values, in the order in which they first occur, with the last value of
each. -/
def last (s : Split) : List (String × String) :=
  let names := s.values.foldl (fun ns (n, _) => if ns.contains n then ns else ns ++ [n]) []
  names.filterMap fun n => (s.all n).getLast?.map fun v => (n, v)

end Split

/-! ### Values of options -/

def intOption (name value : String) : Except UsageError Int :=
  match readInt? value with
  | some n => .ok n
  | none => .error (.notInteger name value)

def floatOption (name value : String) : Except UsageError Float :=
  match readFloat? value with
  | some x => .ok x
  | none => .error (.notFloat name value)

def applySetting (s : Settings) (name value : String) : Except UsageError Settings :=
  match name with
  | "--trials" => (intOption name value).map fun n => { s with trials := n }
  | "--seed" => (intOption name value).map fun n => { s with seed := some n }
  | "--max-retries" => (intOption name value).map fun n => { s with maxRetries := n }
  | "--tolerance" => (floatOption name value).map fun x => { s with tolerance := .double x }
  | _ => .ok s

def applySettings (s : Settings) : List (String × String) → Except UsageError Settings
  | [] => .ok s
  | (name, value) :: rest =>
    match applySetting s name value with
    | .ok s => applySettings s rest
    | .error e => .error e

/-! ### Commands -/

/-- The first argument and those after it. -/
def argument (name : String) : List String → Except UsageError (String × List String)
  | a :: as => .ok (a, as)
  | [] => .error (.missingArgument name)

def noMore : List String → Except UsageError Unit
  | [] => .ok ()
  | [a] => .error (.extraArgument a)
  | as => .error (.extraArguments as)

def evalOptions : Options := ⟨["--no-prompt", "--help"], [], ["--var"]⟩

def treeOptions : Options := ⟨["--rich", "--help"], [], []⟩

def equivOptions : Options :=
  ⟨["--help"], [], ["--trials", "--tolerance", "--seed", "--max-retries"]⟩

def replOptions : Options := ⟨["--help"], [], []⟩

def readEval (s : Split) : Except UsageError Command := do
  let (text, rest) ← argument "EXPRESSION" s.plain
  noMore rest
  return .eval text (s.all "--var") (!s.has "--no-prompt")

def readTree (s : Split) : Except UsageError Command := do
  let (text, rest) ← argument "EXPRESSION" s.plain
  noMore rest
  return .tree text (s.has "--rich")

def readEquiv (s : Split) : Except UsageError Command := do
  let settings ← applySettings {} s.last
  let (first, rest) ← argument "FIRST" s.plain
  let (second, rest) ← argument "SECOND" rest
  noMore rest
  return .equiv first second settings

def readRepl (s : Split) : Except UsageError Command := do
  noMore s.plain
  return .repl

/-- How the arguments of a command are read. -/
structure Form where
  name : String
  options : Options
  read : Split → Except UsageError Command

def forms : List Form := [
  ⟨"eval", evalOptions, readEval⟩,
  ⟨"tree", treeOptions, readTree⟩,
  ⟨"equiv", equivOptions, readEquiv⟩,
  ⟨"repl", replOptions, readRepl⟩]

def topOptions : Options := ⟨["--verbose", "--help"], ['v'], []⟩

/-- The arguments before the name of a command. -/
def splitTop (args : List String) : Except Ending Split := do
  let s ← (Split.ofArgs topOptions false args).mapError .usage
  if s.has "--help" then throw (.exit 0)
  return s

/-- A name that starts like an option is first taken for one. -/
def unknownCommand (name : String) (rest : List String) : Ending :=
  let unknown := .usage (.unknownCommand name (closest name (forms.map Form.name)))
  if (name.toList.take 1).any fun c => !isAlphanumeric c then
    match splitTop (name :: rest) with
    | .error e => e
    | .ok _ => unknown
  else unknown

/-- A command, and whether debug lines are shown; otherwise how the program ends. -/
def read (args : List String) : Except Ending (Command × Bool) := do
  let top ← splitTop args
  match top.plain with
  | [] => throw (if args.isEmpty then .exit 2 else .usage .missingCommand)
  | name :: rest =>
    match forms.find? fun f => f.name = name with
    | none => throw (unknownCommand name rest)
    | some f =>
      let s ← (Split.ofArgs f.options true rest).mapError .usage
      if s.has "--help" then throw (.exit 0)
      let c ← (f.read s).mapError .usage
      return (c, top.has "--verbose" || top.has "-v")

end CommandLine

/-- The whole program: arguments and input lines to a transcript. -/
def runProgram [Elementary] (generator : Generator) (args lines : List String) : Transcript :=
  match CommandLine.read args with
  | .error e => ⟨[], none, e⟩
  | .ok (c, verbose) =>
    let t := c.run generator lines
    if verbose then t else t.withoutDebug

end Phasor
