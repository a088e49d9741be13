import Directive.Domain
import Directive.Table
import Directive.Text.Case

/-!
# Command schemas

What a command takes: whether it needs an input, and the domain of each modifier under its
canonical key. `Schema.label` names the slot that keeps the command's result in a chain.
-/

namespace Directive

structure Schema where
  name : String
  requiresInput : Bool := true
  modifiers : Table Domain := .empty
  slotLabel : Option String := none
  description : String := ""

namespace Schema

def label (s : Schema) : String :=
  match s.slotLabel with
  | some l => if l.isEmpty then Text.lower s.name ++ " results" else l
  | none => Text.lower s.name ++ " results"

def describeKeys (s : Schema) : String :=
  if s.modifiers.entries.isEmpty then "no modifiers"
  else ", ".intercalate ((sortedSet s.modifiers.keys).map ("--" ++ ·))

end Schema

end Directive
