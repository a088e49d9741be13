import Directive.Diagnostic
import Directive.Run.Chain

/-!
# Reports

What became of a script and of each of its items.

* `ChainRun.report`: the report on a chain, which takes the slots out of the run;
* `Report.ofItems`: the report on a run; its diagnostic tells of the first item that failed;
* `Report.ofRejection`: the report on a script that was never run.
-/

namespace Directive

inductive ItemStatus
  | completed
  | aborted
  | skipped
deriving DecidableEq

def ItemStatus.name : ItemStatus → String
  | .completed => "completed"
  | .aborted => "aborted"
  | .skipped => "skipped"

structure ItemReport where
  position : Nat
  node : Node
  status : ItemStatus
  result : Value := .null
  /-- The results of the steps that a chain got to. -/
  steps : List Slot := []
  failedStep : Option Int := none
  error : Option Fault := none
  /-- The results of the chains inside the failed step, outermost first. -/
  nestedSteps : List Slot := []

namespace ItemReport

def slots (r : ItemReport) : Table Value := valuesByLabel r.steps

def skipped (position : Nat) (node : Node) : ItemReport := { position, node, status := .skipped }

def completed (position : Nat) (node : Node) (result : Value) : ItemReport :=
  { position, node, status := .completed, result }

def aborted (position : Nat) (node : Node) (fault : Fault) : ItemReport :=
  { position, node, status := .aborted, error := some fault }

end ItemReport

def ChainRun.report (run : ChainRun) (position : Nat) : ItemReport × ChainRun :=
  let (steps, emptied) := run.release
  let isCompleted := run.state = .completed
  ({ position, node := run.node, status := if isCompleted then .completed else .aborted,
     result := if isCompleted then run.result else .null, steps,
     failedStep := if isCompleted then none else run.step, error := run.error,
     nestedSteps := run.nested }, emptied)

structure Report where
  items : List ItemReport := []
  diagnostic : Option Diagnostic := none

namespace Report

def errorsOf (items : List ItemReport) : List Fault := items.filterMap ItemReport.error

def ofItems (items : List ItemReport) : Report :=
  { items, diagnostic := (errorsOf items).head?.map .ofFault }

def ofRejection (fault : Fault) : Report := { diagnostic := some (.ofFault fault) }

def ok (r : Report) : Bool := r.diagnostic.isNone

def exitCode (r : Report) : Nat := exitCodeFor r.diagnostic

def outputs (r : Report) : List Value := r.items.map ItemReport.result

def errors (r : Report) : List Fault := errorsOf r.items

end Report

end Directive
