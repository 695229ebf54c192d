import Phasor.Main
import Phasor.Proofs.Postorder
import Phasor.Proofs.Tokens
import Phasor.Proofs.Grammar
import Phasor.Proofs.Completeness
import Phasor.Proofs.PrefixReader
import Phasor.Proofs.RoundTrip
import Phasor.Proofs.CheckOutcome
import Phasor.Proofs.Conservation
import Phasor.Proofs.Lexemes
import Phasor.Proofs.Scanning
import Phasor.Proofs.Operations
import Phasor.Proofs.Reading
import Phasor.Proofs.OperationErrors
import Phasor.Proofs.Safety
import Phasor.Proofs.Doubles
import Phasor.Proofs.Reflexivity
import Phasor.Proofs.RootFaults
import Phasor.Proofs.VariableUse
import Phasor.Proofs.StackExecution
import Phasor.Proofs.ArgumentCounts
import Phasor.Proofs.Alternation
import Phasor.Proofs.Dialogues
import Phasor.Proofs.Reports
import Phasor.Proofs.Rounds
import Phasor.Proofs.Nearest
import Phasor.Proofs.NumberTexts
import Phasor.Proofs.Literals
import Phasor.Proofs.DecimalTexts
import Phasor.Proofs.Magnitudes
import Phasor.Proofs.ShownDoubles
import Phasor.Proofs.DisplayedValues
import Phasor.Proofs.Overflows
import Phasor.Proofs.VanishingDivisors
import Phasor.Proofs.FirstFailure
import Phasor.Proofs.Depth
import Phasor.Proofs.Shortages
import Phasor.Proofs.LongestMatch
import Phasor.Proofs.InputForms
import Phasor.Proofs.Symmetry
import Phasor.Proofs.Tolerances
import Phasor.Proofs.Budgets
import Phasor.Proofs.Answers
import Phasor.Proofs.Messages
import Phasor.Proofs.BoundVariables
import Phasor.Proofs.PowerSymbols
import Phasor.Proofs.Spacing
import Phasor.Proofs.Degrees
import Phasor.Proofs.IntegerPowers
import Phasor.Proofs.Calls
import Phasor.Proofs.Lengths
import Phasor.Proofs.Roots
import Phasor.Proofs.Sketches
