/-!
# Places in a script

Where something happened: a position, the line that stands there, the command, and the step of a
chain. Any of them may be unknown.

* `Place.describe`: the known parts, one to a line; developers also see the line with a caret under
  the position.
-/

namespace Directive

inductive Detail
  | user
  | developer
deriving DecidableEq

structure Place where
  line : Option Int := none
  column : Option Int := none
  sourceLine : Option String := none
  command : Option String := none
  step : Option Int := none
deriving DecidableEq

/-- Four blanks, and a caret under the given column of a line that is set in as far. -/
def caretLine (column : Int) : String :=
  "    " ++ String.ofList (List.replicate (column - 1).toNat ' ') ++ "^"

/-- The line, set in, and the caret under it. -/
def quotedSource (sourceLine : String) (column : Option Int) : List String :=
  ("    " ++ sourceLine) :: (column.map caretLine).toList

namespace Place

def unknown : Place := {}

def positionLines (p : Place) : List String :=
  match p.line, p.column with
  | some l, some c => ["  at line " ++ toString l ++ ", column " ++ toString c]
  | some l, none => ["  at line " ++ toString l]
  | none, _ => []

def commandLines (p : Place) : List String :=
  match p.command, p.step with
  | some "", _ => []
  | some c, some n => ["  in " ++ c ++ " (chain step " ++ toString n ++ ")"]
  | some c, none => ["  in " ++ c]
  | none, _ => []

def sourceLines (p : Place) (detail : Detail) : List String :=
  match detail, p.sourceLine with
  | .developer, some s => quotedSource s p.column
  | _, _ => []

def describe (p : Place) (detail : Detail) : String :=
  "\n".intercalate (p.positionLines ++ p.commandLines ++ p.sourceLines detail)

end Place

end Directive
