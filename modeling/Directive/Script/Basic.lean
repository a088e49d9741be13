import Directive.Modifier.Setting
import Directive.Table

/-!
# Scripts

A script is a list of commands and chains; the steps of a chain are commands and chains again. A
step has a slot, the name under which its result is kept for the steps after it.

* `Node.invocations`: the commands below a node, in the order of the text.
-/

namespace Directive

inductive Input
  | literal (parts : List String)
  /-- A phrase for the result of an earlier step. -/
  | reference (phrase : String)
deriving DecidableEq

/-- One command with what it is given. -/
structure Invocation where
  command : String
  input : Option Input
  modifiers : Table Setting
  slot : Option String
  line : Int
  column : Int
deriving DecidableEq

inductive Node
  | invocation (i : Invocation)
  | chain (slot : Option String) (line column : Int) (steps : List Node)

structure Script where
  items : List Node

/-- The command whose steps follow as an indented block. -/
def chainCommand : String := "CHAIN"

namespace Node

def command : Node → String
  | .invocation i => i.command
  | .chain _ _ _ _ => chainCommand

def slot : Node → Option String
  | .invocation i => i.slot
  | .chain slot _ _ _ => slot

def line : Node → Int
  | .invocation i => i.line
  | .chain _ line _ _ => line

def column : Node → Int
  | .invocation i => i.column
  | .chain _ _ column _ => column

mutual

def invocations : Node → List Invocation
  | .invocation i => [i]
  | .chain _ _ _ steps => allInvocations steps

def allInvocations : List Node → List Invocation
  | [] => []
  | n :: ns => invocations n ++ allInvocations ns

end

end Node

def Script.invocations (s : Script) : List Invocation := Node.allInvocations s.items

end Directive
