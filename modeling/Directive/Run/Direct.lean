import Directive.Run.Handler
import Directive.Run.World
import Directive.Script.Parser

/-!
# Direct runs

A script is run from its first item to its last one; every call has ended before the next one
starts.

* `runNode`, `runSteps`: a step, and the steps of a chain from some step on;
* `runItem`, `runItems`: the items of a script, each with its report;
* `runScript`: a whole script, and `runText` a text, which may be refused before anything is run.

A fault in one item leaves the others alone, unless the run is to stop on the first one.
-/

namespace Directive

/-- What a direct run works with. -/
structure Direct (σ : Type) where
  handler : Handler σ
  signal : Signal σ
  resolver : Resolver := .standard

namespace Direct

variable {σ : Type} (d : Direct σ)

def look : Run σ Bool := do
  let w ← get
  let (stop, outer) := d.signal w.outer
  set { w with outer }
  return stop

/-- The outcome of a call that an item makes. -/
def enter (item : Nat) (call : Call) : Run σ Outcome := do
  let w := (← get).add [.entered item call]
  let r := d.handler call w.outer
  set ({ w with outer := r.state }.note r.records |>.add [.left item r.outcome])
  return r.outcome

def transition {α : Type} : Except BadTransition α → Run σ α
  | .ok a => return a
  | .error b => throw (.badTransition b)

/-- The call of a command. A handler that gives up ends the whole run. -/
def perform (item : Nat) (i : Invocation) (table : SlotTable) (index : Option Nat) :
    Run σ StepResult := do
  match i.resolveInput d.resolver table (index.getD 0) with
  | .error fault => return .error ⟨fault, []⟩
  | .ok (input, source) =>
    note (boundRecords source ++ [.dispatching i])
    match ← d.enter item (i.call input) with
    | .returned value => return .ok value
    | .threw (.fault f) => return .error ⟨f.thrownBy i.command (i.placeAt index), []⟩
    | .threw (.failure f) => return .error ⟨.ofFailure f i.command (i.placeAt index), []⟩
    | .threw (.cancelled reasons) => throw (.interrupted (joinedMessage reasons))

mutual

/-- The result of a node that is not told to stop. -/
def runNode (item : Nat) (table : SlotTable) (index : Option Nat) : Node → Run σ StepResult
  | .invocation i => d.perform item i table index
  | .chain slot line column steps => do
    let run ← transition (ChainRun.start { node := .chain slot line column steps })
    note [.chainStarted line steps.length]
    return (← runSteps item 0 steps run).nestedResult

/-- The chain after its steps from `index` on. -/
def runSteps (item index : Nat) : List Node → ChainRun → Run σ ChainRun
  | [], run => do
    let run ← transition run.complete
    note [.chainCompleted run.node.line]
    return run
  | step :: steps, run => do
    let run ← transition (run.advance index)
    let result ← if ← d.look then pure (.error ⟨step.stopped (some index), []⟩)
      else runNode item run.table (some index) step
    match result with
    | .ok value => runSteps item (index + 1) steps (run.fill index step value)
    | .error failure =>
      let run ← transition (run.failWith failure)
      note [.chainAborted run.node.line index failure.fault.message]
      return run

end

def runInvocation (position : Nat) (i : Invocation) : Run σ ItemReport := do
  let result ← if ← d.look then pure (.error ⟨(Node.invocation i).stopped none, []⟩)
    else d.perform position i .empty none
  match result with
  | .ok value => return .completed position (.invocation i) value
  | .error failure =>
    note [.itemFailed i failure.fault.message]
    return .aborted position (.invocation i) failure.fault

def runItem (position : Nat) : Node → Run σ ItemReport
  | .invocation i => d.runInvocation position i
  | .chain slot line column steps => do
    let run ← transition (ChainRun.start { node := .chain slot line column steps })
    note [.chainStarted line steps.length]
    return ((← d.runSteps position 0 steps run).report position).1

/-- The reports on some items. Once one has failed the rest may have to be skipped. -/
def runItems (stopOnError : Bool) : Nat → List Node → Run σ (List ItemReport)
  | _, [] => return []
  | position, node :: nodes => do
    let report ← d.runItem position node
    if stopOnError && report.status = .aborted then
      return report :: nodes.mapIdx fun k n => .skipped (position + 1 + k) n
    else return report :: (← runItems stopOnError (position + 1) nodes)

def runScript (stopOnError : Bool) (s : Script) : Run σ Report := do
  return .ofItems (← d.runItems stopOnError 0 s.items)

def runText (stopOnError : Bool) (g : Grammar) (text : String) : Run σ Report :=
  match Script.ofText g text with
  | .ok s => d.runScript stopOnError s
  | .error fault => do
    note [.rejected fault.message]
    return .ofRejection fault
  | .endless => throw .stuck

end Direct

end Directive
