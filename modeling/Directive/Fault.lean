import Directive.Domain
import Directive.Json.Basic
import Directive.Place

/-!
# Faults

Everything that can be wrong with a script or go wrong in a run, by cause, with the place where it
happened.

* `Fault.kind`: the category, which decides the exit code of a program that runs scripts;
* `Fault.message`: what happened, without the place;
* `Fault.describe`: the message and the place.
-/

namespace Directive

inductive FaultKind
  | lex
  | parse
  | validation
  | binding
  | execution
deriving DecidableEq

namespace FaultKind

def exitCode : FaultKind → Nat
  | .lex => 1
  | .parse => 1
  | .validation => 2
  | .binding => 3
  | .execution => 4

def name : FaultKind → String
  | .lex => "lex"
  | .parse => "parse"
  | .validation => "validation"
  | .binding => "binding"
  | .execution => "execution"

def all : List FaultKind := [.lex, .parse, .validation, .binding, .execution]

def ofName? (s : String) : Option FaultKind := all.find? (·.name = s)

end FaultKind

inductive LexProblem
  | mixedIndentation
  | changedIndentation
  | unmatchedDedent
  | openBlock
  | openString
  | noModifierKey
  | noEqualsSign (key : String)
  | said (message : String)
deriving DecidableEq

def LexProblem.message : LexProblem → String
  | .mixedIndentation => "Mixed tabs and spaces in indentation"
  | .changedIndentation => "Inconsistent use of tabs and spaces in indentation"
  | .unmatchedDedent => "Dedent does not match any outer indentation level"
  | .openBlock => "Unterminated block string"
  | .openString => "Unterminated string literal"
  | .noModifierKey => "Expected a modifier key after '--'"
  | .noEqualsSign key => "Expected '=' after modifier key '--" ++ key ++ "'"
  | .said m => m

/-- What may have been meant by an unknown command name. -/
inductive Suggestion
  | none
  | capitals (name : String)
  | similar (name : String)
deriving DecidableEq

inductive ParseProblem
  | strayIndent
  | strayDedent
  | strayIndentInChain
  | noHeader (found : String)
  | unknownCommand (name : String) (suggestion : Suggestion)
  | noColon (name : String)
  | noInput (name : String)
  | chainWithInput
  | chainWithoutBlock
  | chainWithoutSteps
  | textAfterInput (text : String)
  | referenceOutsideChain (text : String)
  | referenceInFirstStep (text : String)
  | noValue (key : String)
  | blankValue (key : String)
  | unexpected (found command : String)
  | said (message : String)
deriving DecidableEq

def ParseProblem.message : ParseProblem → String
  | .strayIndent => "Unexpected indentation; only the steps of a CHAIN block are indented"
  | .strayDedent => "Unexpected dedent"
  | .strayIndentInChain =>
    "Unexpected indentation inside chain; nest a chain with its own 'CHAIN:' header"
  | .noHeader found => "Expected a command header such as 'ANALYZE:', found " ++ found
  | .unknownCommand name .none => "Unknown command '" ++ name ++ "'"
  | .unknownCommand name (.capitals meant) =>
    "Unknown command '" ++ name ++ "'; command names are case-sensitive, did you mean '"
      ++ meant ++ "'?"
  | .unknownCommand name (.similar meant) =>
    "Unknown command '" ++ name ++ "'; did you mean '" ++ meant ++ "'?"
  | .noColon name => "Expected ':' after command name '" ++ name ++ "'"
  | .noInput name =>
    name ++ " requires an input: a quoted string, a \"\"\"block\"\"\" or, "
      ++ "inside a chain, a reference"
  | .chainWithInput => "CHAIN takes no input; its steps follow as an indented block"
  | .chainWithoutBlock =>
    "CHAIN block has no steps; indent at least one command below 'CHAIN:'"
  | .chainWithoutSteps => "CHAIN block has no steps"
  | .textAfterInput text => "Unexpected unquoted text '" ++ text ++ "' after quoted input"
  | .referenceOutsideChain text =>
    "Unquoted input '" ++ text
      ++ "' is only allowed as a reference inside a CHAIN block; quote literal input"
  | .referenceInFirstStep text =>
    "The first step of a chain needs a quoted input; nothing precedes '" ++ text ++ "'"
  | .noValue key =>
    "Modifier '--" ++ key ++ "' has no value; expected '--" ++ key ++ "=value'"
  | .blankValue key => "Modifier '--" ++ key ++ "' has an empty value"
  | .unexpected found command => "Unexpected " ++ found ++ " in " ++ command ++ " command"
  | .said m => m

/-- Why a modifier is not accepted. -/
inductive Objection
  | outside
  | unknownKey
  | refused (reason : Refusal)
  | said (reason : String)
deriving DecidableEq

def Objection.text (value : Json) : Objection → String
  | .outside => "value " ++ value.message ++ " is outside the accepted domain"
  | .unknownKey => "unknown modifier key"
  | .refused r => r.text
  | .said s => s

/-- Why a command was cancelled. -/
inductive Cancellation
  | stopped
  | timedOut (seconds : Binary64)
  | said (message : String)
deriving DecidableEq

def Cancellation.message : Cancellation → String
  | .stopped => "execution cancelled"
  | .timedOut seconds => "step timed out after " ++ seconds.brief ++ "s"
  | .said m => m

inductive Trouble
  | general (message : String)
  | lex (problem : LexProblem)
  | parse (problem : ParseProblem)
  | invalid (command key : String) (value : Json) (domain : String) (objection : Objection)
  | unresolved (phrase : String) (slots : List String)
  /-- A handler failed; `cause` names its failure, unless it reported the fault itself. -/
  | failed (command message : String) (cause : Option String)
  | cancelled (command : String) (reason : Cancellation)

namespace Trouble

def kind : Trouble → FaultKind
  | .general _ => .parse
  | .lex _ => .lex
  | .parse _ => .parse
  | .invalid _ _ _ _ _ => .validation
  | .unresolved _ _ => .binding
  | .failed _ _ _ => .execution
  | .cancelled _ _ => .execution

def slotsText : List String → String
  | [] => "none"
  | slots => ", ".intercalate (slots.map Text.quoted)

def message : Trouble → String
  | .general m => m
  | .lex p => p.message
  | .parse p => p.message
  | .invalid command key value domain objection =>
    "Invalid modifier '--" ++ key ++ "' for " ++ command ++ ": " ++ objection.text value
      ++ "; accepted: " ++ domain
  | .unresolved phrase slots =>
    "Cannot resolve reference '" ++ phrase ++ "'; available slots: " ++ slotsText slots
  | .failed _ m _ => m
  | .cancelled _ reason => reason.message

/-- What a fault of this cause is called where faults are told apart by name. -/
def name : Trouble → String
  | .general _ => "Error"
  | .lex _ => "LexError"
  | .parse _ => "ParseError"
  | .invalid _ _ _ _ _ => "ValidationError"
  | .unresolved _ _ => "BindingError"
  | .failed _ _ _ => "ExecutionError"
  | .cancelled _ _ => "CommandCancelled"

end Trouble

structure Fault where
  trouble : Trouble
  place : Place

namespace Fault

def kind (f : Fault) : FaultKind := f.trouble.kind

def message (f : Fault) : String := f.trouble.message

def exitCode (f : Fault) : Nat := f.kind.exitCode

def describe (f : Fault) (detail : Detail) : String :=
  let location := f.place.describe detail
  if location.isEmpty then f.message else f.message ++ "\n" ++ location

end Fault

end Directive
