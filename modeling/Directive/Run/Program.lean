import Directive.Run.Step

/-!
# Item programs

What an item of a script does when others may run beside it: notes, looks at the stop signal, and
calls, each of which may take a while. A program says nothing about how the calls are answered.

* `Program.bind`: one program after another;
* `Program.ofNode`, `Program.ofSteps`: a step, and the steps of a chain from some step on;
* `Program.ofItem`: an item with its report.
-/

namespace Directive

/-- How a call ended for the caller. -/
inductive Reply
  | outcome (o : Outcome)
  | timedOut (seconds : Binary64)
  /-- The run itself is being called off. -/
  | interrupted

inductive Program (α : Type)
  | done (a : α)
  | note (records : List Record) (next : Program α)
  | look (next : Bool → Program α)
  | call (c : Call) (next : Reply → Program α)

namespace Program

variable {α β : Type}

def bind : Program α → (α → Program β) → Program β
  | .done a, f => f a
  | .note rs next, f => .note rs (next.bind f)
  | .look next, f => .look fun stop => (next stop).bind f
  | .call c next, f => .call c fun r => (next r).bind f

instance : Monad Program where
  pure := .done
  bind := bind

def log (records : List Record) : Program Unit := .note records (.done ())

def checkSignal : Program Bool := .look .done

def ask (c : Call) : Program Reply := .call c .done

end Program

abbrev Task (α : Type) := ExceptT Escape Program α

namespace Program

def transition {α : Type} : Except BadTransition α → Task α
  | .ok a => return a
  | .error b => throw (.badTransition b)

/-- How a step ended: with a result, or because the run was called off while it waited. -/
inductive StepEnd
  | result (r : StepResult)
  | interrupted

namespace StepEnd

def fault (f : Fault) : StepEnd := .result (.error ⟨f, []⟩)

end StepEnd

/-- How a call of a command ends its step. A handler that gives up cancels this command only. -/
def stepEnd (i : Invocation) (index : Option Nat) : Reply → StepEnd
  | .outcome (.returned value) => .result (.ok value)
  | .outcome (.threw (.fault f)) => .fault (f.thrownBy i.command (i.placeAt index))
  | .outcome (.threw (.failure f)) => .fault (.ofFailure f i.command (i.placeAt index))
  | .outcome (.threw (.cancelled _)) => .fault (.cancelledAt i.command .stopped (i.placeAt index))
  | .timedOut seconds => .fault (.cancelledAt i.command (.timedOut seconds) (i.placeAt index))
  | .interrupted => .interrupted

def perform (r : Resolver) (i : Invocation) (table : SlotTable) (index : Option Nat) :
    Task StepEnd := do
  match i.resolveInput r table (index.getD 0) with
  | .error fault => return .fault fault
  | .ok (input, source) =>
    log (boundRecords source ++ [.dispatching i])
    return stepEnd i index (← ask (i.call input))

/-- What ends the whole run. -/
def calledOff : Escape := .interrupted ""

mutual

/-- How a node ends that is not told to stop. -/
def ofNode (r : Resolver) (table : SlotTable) (index : Option Nat) : Node → Task StepEnd
  | .invocation i => perform r i table index
  | .chain slot line column steps => do
    let run ← transition (ChainRun.start { node := .chain slot line column steps })
    log [.chainStarted line steps.length]
    match ← ofSteps r 0 steps run with
    | some run => return .result run.nestedResult
    | none => return .interrupted

/-- The chain after its steps from `index` on, or nothing if the run was called off. -/
def ofSteps (r : Resolver) (index : Nat) : List Node → ChainRun → Task (Option ChainRun)
  | [], run => do
    let run ← transition run.complete
    log [.chainCompleted run.node.line]
    return some run
  | step :: steps, run => do
    let run ← transition (run.advance index)
    let ended ← if ← checkSignal then pure (.fault (step.stopped (some index)))
      else ofNode r run.table (some index) step
    match ended with
    | .result (.ok value) => ofSteps r (index + 1) steps (run.fill index step value)
    | .result (.error failure) =>
      let run ← transition (run.failWith failure)
      log [.chainAborted run.node.line index failure.fault.message]
      return some run
    | .interrupted =>
      let fault := step.stopped (some index)
      let run ← transition (run.failWith ⟨fault, []⟩)
      log [.chainAborted run.node.line index fault.message]
      return none

end

def ofInvocation (r : Resolver) (position : Nat) (i : Invocation) : Task ItemReport := do
  let ended ← if ← checkSignal then pure (.fault ((Node.invocation i).stopped none))
    else perform r i .empty none
  match ended with
  | .result (.ok value) => return .completed position (.invocation i) value
  | .result (.error failure) =>
    log [.itemFailed i failure.fault.message]
    return .aborted position (.invocation i) failure.fault
  | .interrupted => throw calledOff

def ofItem (r : Resolver) (position : Nat) : Node → Task ItemReport
  | .invocation i => ofInvocation r position i
  | .chain slot line column steps => do
    let run ← transition (ChainRun.start { node := .chain slot line column steps })
    log [.chainStarted line steps.length]
    match ← ofSteps r 0 steps run with
    | some run => return (run.report position).1
    | none => throw calledOff

end Program

end Directive
