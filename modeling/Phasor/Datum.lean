import Phasor.Scalar
import Phasor.Text.Quoted

/-!
# Plain data

Values that are no expressions and need not be numbers: truth values, numbers, text, lists and
records. `written` is their form inside a list, `shown` their form on its own, and `same` their
equality, in which truth values count as numbers.
-/

namespace Phasor

open Text

inductive Datum
  | null
  | bool (b : Bool)
  | int (n : Int)
  | double (x : Float)
  | text (s : String)
  | list (items : List Datum)
  | record (fields : List (String × Datum))
deriving Repr

namespace Datum

mutual

/-- The form in which data is written inside a list, where text is quoted. -/
def written : Datum → String
  | null => "None"
  | bool b => if b then "True" else "False"
  | int n => toString n
  | double x => Decimal.text x
  | text s => quoted s
  | list items => bracketed (writtenAll items)
  | record fields => "\x7b" ++ ", ".intercalate (writtenFields fields) ++ "\x7d"

def writtenAll : List Datum → List String
  | [] => []
  | d :: ds => d.written :: writtenAll ds

def writtenFields : List (String × Datum) → List String
  | [] => []
  | (k, d) :: fs => (quoted k ++ ": " ++ d.written) :: writtenFields fs

end

/-- Text stands for itself. -/
def shown : Datum → String
  | text s => s
  | d => d.written

/-- Numbers and truth values are compared as numbers, so `1`, `1.0` and `true` are the same. -/
def number? : Datum → Option Scalar
  | int n => some (.int n)
  | bool b => some (.int (if b then 1 else 0))
  | double x => some (.double x)
  | _ => none

mutual

def same : Datum → Datum → Bool
  | null, null => true
  | text s, text t => s == t
  | list as, list bs => sameAll as bs
  | record fs, record gs => sameFields fs gs
  | a, b =>
    match a.number?, b.number? with
    | some m, some n => m.same n
    | _, _ => false

def sameAll : List Datum → List Datum → Bool
  | [], [] => true
  | a :: as, b :: bs => a.same b && sameAll as bs
  | _, _ => false

def sameFields : List (String × Datum) → List (String × Datum) → Bool
  | [], [] => true
  | (k, a) :: fs, (l, b) :: gs => k == l && a.same b && sameFields fs gs
  | _, _ => false

end

end Datum

end Phasor
