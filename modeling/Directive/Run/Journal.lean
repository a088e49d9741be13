import Directive.Run.Call
import Directive.Script.Basic

/-!
# Journals

What happens in the course of a run, in order: records for the log, and the calls of each item of
the script.
-/

namespace Directive

inductive LogLevel
  | debug
  | info
  | warning
deriving DecidableEq

def LogLevel.name : LogLevel → String
  | .debug => "DEBUG"
  | .info => "INFO"
  | .warning => "WARNING"

/-- The part of the program that a record comes from. -/
inductive LogSource
  | executor
  | handler
deriving DecidableEq

structure Record where
  source : LogSource
  level : LogLevel
  message : String
deriving DecidableEq

namespace Record

def executor (level : LogLevel) (message : String) : Record := ⟨.executor, level, message⟩

def chainStarted (line : Int) (steps : Nat) : Record :=
  executor .debug
    ("Chain at line " ++ toString line ++ " started with " ++ toString steps ++ " steps")

def chainCompleted (line : Int) : Record :=
  executor .info ("Chain at line " ++ toString line ++ " completed")

def chainAborted (line : Int) (step : Nat) (message : String) : Record :=
  executor .warning ("Chain at line " ++ toString line ++ " aborted at step " ++ toString step
    ++ ": " ++ message)

def dispatching (i : Invocation) : Record :=
  executor .debug ("Dispatching " ++ i.command ++ " from line " ++ toString i.line)

def bound (phrase : String) (step : Int) (label : String) : Record :=
  executor .debug ("Bound '" ++ phrase ++ "' to step " ++ toString step ++ " (" ++ label ++ ")")

def itemFailed (i : Invocation) (message : String) : Record :=
  executor .warning (i.command ++ " at line " ++ toString i.line ++ " failed: " ++ message)

def rejected (message : String) : Record :=
  executor .info ("Script rejected before execution: " ++ message)

end Record

inductive Event
  | noted (record : Record)
  | entered (item : Nat) (call : Call)
  | left (item : Nat) (outcome : Outcome)

abbrev Journal := List Event

namespace Journal

def records : Journal → List Record
  | [] => []
  | .noted r :: es => r :: records es
  | _ :: es => records es

/-- The calls that an item made. -/
def calls (item : Nat) : Journal → List Call
  | [] => []
  | .entered i c :: es => if i = item then c :: calls item es else calls item es
  | _ :: es => calls item es

end Journal

end Directive
