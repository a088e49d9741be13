import Directive.Missing
import Directive.Number.Basic
import Directive.Table

/-!
# Models

Scripts never name a vendor: commands are carried out by models with names of their own, each with
a provider and settings.

* `Models.get`: the settings under a name;
* `Limiter.ofRate`: the limiter that lets one call through at a time, at a given rate.
-/

namespace Directive

inductive Provider
  | anthropic
  | google
  | openai
deriving DecidableEq

namespace Provider

def name : Provider → String
  | .anthropic => "anthropic"
  | .google => "google"
  | .openai => "openai"

def all : List Provider := [.anthropic, .google, .openai]

def ofName? (s : String) : Option Provider := all.find? (·.name = s)

/-- What to say of a name that no provider has. -/
def unknownMessage (name : String) : String := Text.quoted name ++ " is not a valid Provider"

end Provider

structure ModelSettings where
  provider : Provider
  model : String
  temperature : Option Number := none
  maxTokens : Option Int := none
deriving DecidableEq

/-- A named argument for the chat service of a provider. -/
inductive Argument
  | text (s : String)
  | number (n : Number)
deriving DecidableEq

/-- The arguments that the settings give; what is not set is left out. -/
def ModelSettings.arguments (s : ModelSettings) : List (String × Argument) :=
  ("model", .text s.model)
    :: (s.temperature.map fun t => ("temperature", .number t)).toList
    ++ (s.maxTokens.map fun n => ("max_tokens", .number (.whole n))).toList

/-- A bucket of tokens: how many come in a second, the seconds between two looks, and how many
there can be. -/
structure Limiter where
  callsPerSecond : Number
  lookEvery : Binary64
  bucketSize : Nat
deriving DecidableEq

/-- Why there is no limiter for a rate. -/
inductive RateProblem
  | zero
  | tooLarge
deriving DecidableEq

def RateProblem.message : RateProblem → String
  | .zero => "float division by zero"
  | .tooLarge => Binary64.tooLargeMessage

namespace Limiter

def shortestLook : Binary64 := .ofDecimal false 1 (-1)

/-- The limiter for a rate of calls in a second. -/
def ofRate (callsPerSecond : Number) : Except RateProblem Limiter :=
  match callsPerSecond.toBinary64? with
  | none => .error .tooLarge
  | some rate =>
    if rate.isZero then .error .zero
    else
      let turn := rate.reciprocal
      .ok ⟨callsPerSecond, if shortestLook.lt turn then turn else shortestLook, 1⟩

/-- One call a second. -/
def standard : Limiter := ⟨.whole 1, .ofInt 1, 1⟩

end Limiter

structure Models where
  settings : Table ModelSettings := .empty

namespace Models

def empty : Models := {}

def names (m : Models) : List String := m.settings.keys

def has (m : Models) (name : String) : Bool := m.settings.contains name

def get (m : Models) (name : String) : Except Missing ModelSettings :=
  match m.settings.get? name with
  | some s => .ok s
  | none => .error (.model name m.names)

def put (m : Models) (name : String) (s : ModelSettings) : Models := ⟨m.settings.put name s⟩

def standardSettings (provider : Provider) (model : String) : ModelSettings :=
  { provider, model, temperature := some (.real .zero) }

def standard : Models :=
  ⟨Table.ofList
    [("default", standardSettings .openai "gpt-4o-mini"),
     ("reasoning", standardSettings .anthropic "claude-sonnet-4-5"),
     ("fast", standardSettings .google "gemini-2.0-flash")]⟩

end Models

end Directive
