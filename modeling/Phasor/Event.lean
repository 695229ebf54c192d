import Phasor.Equivalence
import Phasor.Expr.PrefixForm

/-!
# What is shown

Output is a list of events: lines of text, prompts, tables, panels and debug lines. `showResult`,
`showTree` and `showReport` are the displays of a value, a syntax tree and an equivalence check.
-/

namespace Phasor

inductive Justify
  | left
  | right
deriving Repr, DecidableEq

structure Column where
  header : String
  style : String
  justify : Justify
deriving Repr, DecidableEq

inductive Tree
  | node (label : String) (children : List Tree)
deriving Repr

inductive Event
  | text (s : String)
  | prompt (s : String)
  | table (title : String) (columns : List Column) (rows : List (List String))
  | panel (title body border : String)
  | drawing (title : String) (tree : Tree) (border : String)
  | debug (s : String)
deriving Repr

def Event.isDebug : Event → Bool
  | debug _ => true
  | _ => false

namespace Expr

mutual

/-- The tree of labels; functions have empty parentheses after their name. -/
def tree : Expr → Tree
  | lit t => .node t []
  | var n => .node n []
  | unary op e => .node op [e.tree]
  | binary op l r => .node op [l.tree, r.tree]
  | call n args => .node (n ++ "()") (treeAll args)

def treeAll : List Expr → List Tree
  | [] => []
  | e :: es => e.tree :: treeAll es

end

end Expr

def showTree (e : Expr) : List Event := [.drawing e.render e.tree "blue"]

/-- The bindings are listed by name; without any there is no table. -/
def showResult (e : Expr) (z : Complex) (env : Environment) : List Event :=
  let row (name : String) : Option (List String) := (env.find? name).map fun b => [name, b.shown]
  let bindings :=
    if env.isEmpty then []
    else
      [Event.table "Bindings" [⟨"Variable", "cyan", .left⟩, ⟨"Value", "green", .right⟩]
        ((Names.sorted (env.map Prod.fst)).filterMap row)]
  .text ("Expression: " ++ e.render) :: bindings ++ [.text ("Result: " ++ z.text)]

namespace Report

def columns (r : Report) : List Column :=
  ⟨"#", "dim", .right⟩ :: r.names.map (fun n => ⟨n, "cyan", .left⟩) ++
    [⟨"Left", "green", .left⟩, ⟨"Right", "yellow", .left⟩]

def bindingCells (env : Environment) : List String → Except Fault (List String)
  | [] => .ok []
  | n :: ns =>
    match env.find? n with
    | none => .error .missingName
    | some b => (bindingCells env ns).map (b.shown :: ·)

/-- The row of sample number `i`. -/
def row (r : Report) (i : Nat) (s : Sample) : Except Fault (List String) :=
  (bindingCells s.env r.names).map fun cells =>
    toString i :: cells ++ [s.left.text, s.right.text]

def rowsFrom (r : Report) (i : Nat) : List Sample → Except Fault (List (List String))
  | [] => .ok []
  | s :: ss => do
    let cells ← r.row i s
    let rest ← r.rowsFrom (i + 1) ss
    return cells :: rest

def verdict (r : Report) : String :=
  if r.equivalent then "The expressions are (numerically) equivalent."
  else "The expressions are NOT equivalent."

def summary (r : Report) : String :=
  r.verdict ++ "\nTrials: " ++ toString r.trialsRun ++ "\nDiscarded (evaluation errors): " ++
    toString r.retries

end Report

/-- Fails where a sample does not bind one of the variables. -/
def showReport (r : Report) : Except Fault (List Event) := do
  let rows ← r.rowsFrom 1 r.samples
  return [.table "Trials" r.columns rows,
    .panel "Equivalence" r.summary (if r.equivalent then "green" else "red")]

end Phasor
