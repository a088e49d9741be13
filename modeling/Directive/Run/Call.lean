import Directive.Fault
import Directive.Modifier.Setting
import Directive.Table
import Directive.Value

/-!
# Calls

A handler does the work of commands. A call gives it a command, an input and modifiers; the outcome
is a value or something thrown.

* `Failure.reason`: what a failure says, or its name if it says nothing.
-/

namespace Directive

structure Call where
  command : String
  input : Value
  modifiers : Table Setting

inductive FailureKind
  | value
  | runtime
  | lookup
  | type
  | timeout
  | division
  | malformed
  /-- A failure of any other kind, which nothing tells apart but its name. -/
  | other (name : String)
deriving DecidableEq

def FailureKind.name : FailureKind → String
  | .value => "ValueError"
  | .runtime => "RuntimeError"
  | .lookup => "KeyError"
  | .type => "TypeError"
  | .timeout => "TimeoutError"
  | .division => "ZeroDivisionError"
  | .malformed => "ValidationError"
  | .other name => name

/-- A failure of a handler, with the values that it gives as its reason. -/
structure Failure where
  kind : FailureKind
  reasons : List Json

namespace Failure

def said (f : Failure) : String := joinedMessage f.reasons

/-- What to report. A failed look-up reports its one reason even if that is empty. -/
def reason (f : Failure) : String :=
  match f.kind, f.reasons with
  | .lookup, [j] => j.message
  | kind, _ => if f.said.isEmpty then kind.name else f.said

end Failure

inductive Thrown
  | fault (f : Fault)
  | failure (f : Failure)
  /-- The handler gave up because it was told to stop. -/
  | cancelled (reasons : List Json)

inductive Outcome
  | returned (value : Value)
  | threw (t : Thrown)

namespace Fault

/-- The fault that another one becomes when a handler throws it. A fault of an execution stays
what it is. -/
def thrownBy (f : Fault) (command : String) (place : Place) : Fault :=
  if f.kind = .execution then f
  else ⟨.failed command (if f.message.isEmpty then f.trouble.name else f.message)
    (some f.trouble.name), place⟩

def ofFailure (f : Failure) (command : String) (place : Place) : Fault :=
  ⟨.failed command f.reason (some f.kind.name), place⟩

def cancelledAt (command : String) (reason : Cancellation) (place : Place) : Fault :=
  ⟨.cancelled command reason, place⟩

end Fault

end Directive
