import Phasor.Failure

/-!
# Errors of use

What can be wrong with the arguments of the program.
-/

namespace Phasor

open Text

inductive UsageError
  /-- The similar options are offered instead. -/
  | unknownOption (name : String) (similar : List String)
  | unknownCommand (name : String) (similar : List String)
  | valueGiven (option : String)
  | valueMissing (option : String)
  | notInteger (option value : String)
  | notFloat (option value : String)
  /-- A binding has no name or no equals sign. -/
  | notBinding (text : String)
  | badBinding (e : EvalError)
  | missingArgument (name : String)
  | missingCommand
  | extraArgument (text : String)
  | extraArguments (texts : List String)
deriving Repr, DecidableEq

namespace UsageError

def suggestion : List String → String
  | [] => ""
  | [name] => " Did you mean " ++ quoted name ++ "?"
  | names => " (Did you mean one of: " ++ ", ".intercalate (names.map quoted) ++ "?)"

/-- Values that may replace the one given for a variable. -/
def valueExamples : String := "3+4i, -2-3i, 4i, 5, i"

def message : UsageError → String
  | unknownOption name similar => "No such option " ++ quoted name ++ "." ++ suggestion similar
  | unknownCommand name similar => "No such command " ++ quoted name ++ "." ++ suggestion similar
  | valueGiven o => "Option " ++ quoted o ++ " does not take a value."
  | valueMissing o => "Option " ++ quoted o ++ " requires an argument."
  | notInteger o v => "Invalid value for " ++ quoted o ++ ": " ++ quoted v ++ " is not a valid integer."
  | notFloat o v => "Invalid value for " ++ quoted o ++ ": " ++ quoted v ++ " is not a valid float."
  | notBinding t => "Invalid value for --var: expected NAME=VALUE, got " ++ quoted t
  | badBinding e => "Invalid value for --var: " ++ e.message ++ " (examples: " ++ valueExamples ++ ")"
  | missingArgument name => "Missing argument " ++ quoted name ++ "."
  | missingCommand => "Missing command."
  | extraArgument t => "Got unexpected extra argument (" ++ t ++ ")"
  | extraArguments ts => "Got unexpected extra arguments (" ++ " ".intercalate ts ++ ")"

end UsageError

end Phasor
