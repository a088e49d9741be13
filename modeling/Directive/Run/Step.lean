import Directive.Chain.Reference
import Directive.Run.Journal
import Directive.Run.Report

/-!
# Steps

What the two ways of running a script have in common: how a step gets its input, how what a handler
throws becomes a fault, and how a chain inside a chain hands over its result.
-/

namespace Directive

/-- Why a step has no value, and what the chains inside it had got. -/
structure StepFailure where
  fault : Fault
  nested : List Slot := []

abbrev StepResult := Except StepFailure Value

/-- What ends a run without a report. -/
inductive Escape
  | interrupted (message : String)
  | badTransition (b : BadTransition)
  /-- Reading the text never ends, or a call never does and nothing else can move. -/
  | stuck

namespace Node

/-- Where the node stands; `step` is its number within its chain. -/
def place (n : Node) (step : Option Nat) : Place :=
  { line := some n.line, column := some n.column, command := some n.command,
    step := step.map Int.ofNat }

/-- The name of the slot that the node fills. -/
def label (n : Node) : String := n.slot.getD ""

def stopped (n : Node) (step : Option Nat) : Fault :=
  .cancelledAt n.command .stopped (n.place step)

end Node

namespace Invocation

def placeAt (i : Invocation) (step : Option Nat) : Place := (Node.invocation i).place step

def call (i : Invocation) (input : Value) : Call := ⟨i.command, input, i.modifiers⟩

/-- The input of a command that is the given step of a chain with the given slots, and the slot
that it comes from. -/
def resolveInput (i : Invocation) (r : Resolver) (table : SlotTable) (step : Nat) :
    Except Fault (Value × Option (String × Slot)) :=
  match i.input with
  | none => .ok (.null, none)
  | some (.literal parts) => .ok (.ofParts parts, none)
  | some (.reference phrase) =>
    (r.resolve phrase table step (i.placeAt (some step))).map fun slot =>
      (slot.value, some (phrase, slot))

end Invocation

def boundRecords : Option (String × Slot) → List Record
  | some (phrase, slot) => [.bound phrase slot.step slot.label]
  | none => []

/-- The value of a chain that has ended inside another one. -/
def ChainRun.nestedResult (run : ChainRun) : StepResult :=
  match run.error with
  | some fault => .error ⟨fault, run.table.slots ++ run.nested⟩
  | none => .ok run.result

def ChainRun.fill (run : ChainRun) (index : Nat) (step : Node) (value : Value) : ChainRun :=
  run.store ⟨index, step.label, step.command, value⟩

/-- The chain with a step that failed on its account. -/
def ChainRun.failWith (run : ChainRun) (failure : StepFailure) : Except BadTransition ChainRun :=
  { run with nested := failure.nested }.abort failure.fault

end Directive
