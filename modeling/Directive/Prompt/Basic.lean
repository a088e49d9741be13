import Directive.Form
import Directive.Json.Writer
import Directive.Modifier.Setting
import Directive.Prompt.Template
import Directive.Table

/-!
# Prompts

What a model is told: a system message, and a message with the task, the modifiers, the form of the
answer and the input, each in a section of its own. The texts of the sections are escaped; the input
takes the place of a variable, so that its braces mean nothing.

* `renderInput`, `renderSettings`: an input and modifiers as text;
* `Prompt.assemble`, `Prompt.ofAssignment`: the templates;
* `Prompt.messages?`: the messages for an input.
-/

namespace Directive

inductive Role
  | system
  | human
deriving DecidableEq

def Role.name : Role → String
  | .system => "system"
  | .human => "human"

structure Message where
  role : Role
  text : String
deriving DecidableEq

mutual

/-- The value with nothing in place of numbers that are not finite. -/
def finiteOnly : Json → Json
  | .float x => if x.isFinite then .float x else .null
  | .arr items => .arr (finiteItems items)
  | .obj fields => .obj (finiteFields fields)
  | j => j

def finiteItems : List Json → List Json
  | [] => []
  | j :: js => finiteOnly j :: finiteItems js

def finiteFields : List (String × Json) → List (String × Json)
  | [] => []
  | (k, j) :: fs => (k, finiteOnly j) :: finiteFields fs

end

def numbered (items : List String) : String :=
  "\n".intercalate (items.mapIdx fun k item => toString (k + 1) ++ ". " ++ item)

/-- A text stands for itself, texts are numbered, and all else is a document. -/
def renderInput : Value → String
  | .data .null => ""
  | .data (.str s) => s
  | .data (.arr items) =>
    match Json.strings? items with
    | some texts => numbered texts
    | none => (Json.arr items).indented
  | .data j => j.indented
  | .record _ fields => (finiteOnly (.obj fields)).readable

def renderSettings (modifiers : Table Setting) : String :=
  "\n".intercalate (modifiers.entries.map fun e => "- " ++ e.1 ++ ": " ++ e.2.text)

def standardSystem : String :=
  "You execute structured directives. Each directive names a command, "
    ++ "gives its input and lists modifiers that refine how to carry it out. "
    ++ "Follow the modifiers exactly and answer with the result only."

/-- The variable that the input takes the place of. -/
def inputVariable : String := "directive_input"

/-- What a model is to do. -/
structure Assignment where
  command : String
  description : String
  modifiers : Table Setting
  form : Option Form := none

/-- The templates of the two messages. -/
structure Prompt where
  system : String
  human : String
deriving DecidableEq

namespace Prompt

def taskSection (command description : String) : String :=
  let order := "Execute the " ++ command ++ " directive."
  let task := if description.isEmpty then order else order ++ " " ++ description
  "# Task\n\n" ++ Template.escapeText task ++ "\n"

def modifierSection (modifiers : Table Setting) : String :=
  if modifiers.entries.isEmpty then ""
  else "\n# Modifiers\n\n" ++ Template.escapeText (renderSettings modifiers) ++ "\n"

/-- The section for the schema of the answer, if it has one. -/
def outputSection : Option String → String
  | none => ""
  | some schema =>
    "\n# Output\n\nRespond with JSON matching this schema:\n\n" ++ Template.escapeText schema ++ "\n"

def inputSection : String := "\n# Input\n\n\x7b" ++ inputVariable ++ "\x7d\n"

def assemble (system command description : String) (modifiers : Table Setting)
    (schema : Option String) : Prompt :=
  { system := Template.escapeText system
    human := taskSection command description ++ modifierSection modifiers
      ++ outputSection schema ++ inputSection }

def ofAssignment (system : String) (t : Assignment) : Prompt :=
  assemble system t.command t.description t.modifiers (t.form.map fun f => f.schema.indented)

def variableNames? (p : Prompt) : Option (List String) := do
  let system ← Template.pieces? p.system.toList
  let human ← Template.pieces? p.human.toList
  return Template.variableNames (system ++ human)

def messages? (p : Prompt) (input : String) : Option (List Message) := do
  let values := [(inputVariable, input)]
  let system ← Template.format? p.system values
  let human ← Template.format? p.human values
  return [⟨.system, system⟩, ⟨.human, human⟩]

end Prompt

end Directive
