import Phasor.Event

/-!
# Plain text layout

How events look on a terminal without colours: cells padded to the width of their column, panels
between two rules, trees indented.
-/

namespace Phasor.Layout

def pad (justify : Justify) (width : Nat) (cell : String) : String :=
  let fill := String.ofList (List.replicate (width - cell.length) ' ')
  match justify with
  | .left => cell ++ fill
  | .right => fill ++ cell

def line (columns : List Column) (widths : List Nat) (cells : List String) : String :=
  "  ".intercalate ((columns.zip (widths.zip cells)).map fun (c, w, cell) => pad c.justify w cell)

def table (title : String) (columns : List Column) (rows : List (List String)) : List String :=
  let headers := columns.map Column.header
  let width (i : Nat) := ((headers :: rows).map fun r => (r.getD i "").length).foldl max 0
  let widths := (List.range columns.length).map width
  let rule := String.ofList (List.replicate (widths.foldl (· + ·) 0 + 2 * (columns.length - 1)) '-')
  title :: line columns widths headers :: rule :: rows.map (line columns widths)

mutual

def tree (indent : String) : Tree → List String
  | .node label children => (indent ++ label) :: trees (indent ++ "  ") children

def trees (indent : String) : List Tree → List String
  | [] => []
  | t :: ts => tree indent t ++ trees indent ts

end

def framed (title : String) (body : List String) : List String :=
  ("--- " ++ title ++ " ---") :: body ++ ["---"]

/-- Prompts end where the answer starts; everything else ends its line. -/
def text : Event → String
  | .text s => s ++ "\n"
  | .prompt s => s
  | .debug s => "DEBUG " ++ s ++ "\n"
  | .table title columns rows => "\n".intercalate (table title columns rows) ++ "\n"
  | .panel title body _ => "\n".intercalate (framed title [body]) ++ "\n"
  | .drawing title t _ => "\n".intercalate (framed title (tree "" t)) ++ "\n"

end Phasor.Layout
