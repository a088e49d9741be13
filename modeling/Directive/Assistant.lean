import Directive.Grammar.Builtin
import Directive.Model.Basic
import Directive.Prompt.Basic
import Directive.Run.Handler

/-!
# Assistants

A handler that has every command carried out by a chat model. Nothing is kept between calls: each
one builds the model that its command is for and asks it once.

* `Assistant.prepare`: the model and the prompt for a command;
* `Assistant.ask`: the answer to a call;
* `Assistant.handler`: the handler.
-/

namespace Directive

/-- Chat models from outside: building one, and asking it. -/
structure ChatService (σ : Type) where
  build : ModelSettings → Option Limiter → σ → σ
  ask : List Message → σ → String × σ

structure Assistant where
  grammar : Grammar := .builtin
  models : Models := .standard
  model : String := "default"
  /-- The models of commands that have one of their own. -/
  commandModels : Table String := .empty
  limiter : Option Limiter := some .standard
  system : String := standardSystem
  /-- The forms of commands that answer with a record. -/
  forms : Table Form := .empty

/-- Why a call has no answer. -/
inductive AskFailure
  | missing (m : Missing)
  /-- A brace stands alone in a prompt. -/
  | template
  | malformed (m : Malformed)

namespace Assistant

variable (a : Assistant)

def modelFor (command : String) : String := (a.commandModels.get? command).getD a.model

def prepare (command : String) (modifiers : Table Setting) :
    Except Missing (ModelSettings × Prompt) := do
  let schema ← a.grammar.get command
  let settings ← a.models.get (a.modelFor command)
  let assignment : Assignment :=
    { command, description := schema.description, modifiers, form := a.forms.get? command }
  return (settings, .ofAssignment a.system assignment)

/-- The value that an answer gives. -/
def understand (command answer : String) : Except AskFailure Value :=
  match a.forms.get? command with
  | none => .ok (.text answer)
  | some form => (form.ofDocument answer).mapError .malformed

def askedRecord (command how : String) : Record :=
  ⟨.handler, .debug, "Invoking " ++ command ++ " on model " ++ a.modelFor command ++ how⟩

variable {σ : Type} (chat : ChatService σ)

/-- The answer to a call, the records of it, and the state after it. `how` is added to the record
of a call that others may run beside. -/
def ask (how : String) (call : Call) (s : σ) :
    Except AskFailure Value × List Record × σ :=
  match a.prepare call.command call.modifiers with
  | .error m => (.error (.missing m), [], s)
  | .ok (settings, prompt) =>
    let s := chat.build settings a.limiter s
    let records := [a.askedRecord call.command how]
    match prompt.messages? (renderInput call.input) with
    | none => (.error .template, records, s)
    | some messages =>
      let (answer, s) := chat.ask messages s
      (a.understand call.command answer, records, s)

def AskFailure.thrown : AskFailure → Thrown
  | .missing m => .failure ⟨.lookup, [.str m.message]⟩
  | .template => .failure ⟨.value, []⟩
  | .malformed m => .failure ⟨.malformed, [.str m.form]⟩

def respond (how : String) : Handler σ := fun call s =>
  let (result, records, state) := a.ask chat how call s
  match result with
  | .ok v => { outcome := .returned v, records, state }
  | .error e => { outcome := .threw (AskFailure.thrown e), records, state }

def handler : Handler σ := a.respond chat ""

def pausingHandler : PausingHandler σ := (a.respond chat " (async)").pausing

end Assistant

end Directive
