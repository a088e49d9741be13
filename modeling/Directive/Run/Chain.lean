import Directive.Chain.Slot
import Directive.Fault
import Directive.Script.Basic

/-!
# Chain runs

The state of a chain while it runs. A chain starts once, goes from step to step, and either
completes or aborts with a fault. Only these changes need the right state; slots may be stored and
handed out at any time.
-/

namespace Directive

inductive ChainState
  | pending
  | running
  | completed
  | aborted
deriving DecidableEq

def ChainState.name : ChainState → String
  | .pending => "pending"
  | .running => "running"
  | .completed => "completed"
  | .aborted => "aborted"

structure BadTransition where
  state : ChainState
  expected : ChainState
deriving DecidableEq

def BadTransition.message (b : BadTransition) : String :=
  "Invalid chain transition from " ++ b.state.name ++ " (expected " ++ b.expected.name ++ ")"

structure ChainRun where
  node : Node
  table : SlotTable := .empty
  state : ChainState := .pending
  step : Option Int := none
  error : Option Fault := none
  /-- What the chains inside a failed step had got, outermost first. -/
  nested : List Slot := []

namespace ChainRun

variable (run : ChainRun)

def require (expected : ChainState) : Except BadTransition Unit :=
  if run.state = expected then .ok () else .error ⟨run.state, expected⟩

def start : Except BadTransition ChainRun := do
  run.require .pending
  return { run with state := .running }

def advance (step : Int) : Except BadTransition ChainRun := do
  run.require .running
  return { run with step := some step }

def complete : Except BadTransition ChainRun := do
  run.require .running
  return { run with state := .completed }

def abort (fault : Fault) : Except BadTransition ChainRun := do
  run.require .running
  return { run with state := .aborted, error := some fault }

def store (slot : Slot) : ChainRun := { run with table := run.table.store slot }

/-- The value of the last slot. -/
def result : Value :=
  match run.table.last? with
  | some slot => slot.value
  | none => .null

/-- The slots, and the run with an empty table. -/
def release : List Slot × ChainRun := (run.table.slots, { run with table := .empty })

end ChainRun

end Directive
