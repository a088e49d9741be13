import Directive.Fault
import Directive.Grammar.Basic
import Directive.Script.Basic

/-!
# Validation

Modifiers against the schema of their command.

* `Schema.validate`: one modifier;
* `Schema.validateAll`: all of them; the first that is not accepted counts;
* `Invocation.validate`: the modifiers of a command against any grammar.

Accepted modifiers come back as they are.
-/

namespace Directive

namespace Schema

def unknownKey (s : Schema) (key : String) : Trouble :=
  .invalid s.name key .null s.describeKeys .unknownKey

def refused (s : Schema) (key : String) (value : Setting) (d : Domain) (r : Refusal) : Trouble :=
  .invalid s.name key (.str value.text) d.describe (.refused r)

/-- What is wrong with a modifier. -/
def objection? (s : Schema) (key : String) (value : Setting) : Option Trouble :=
  match s.modifiers.get? key with
  | none => some (s.unknownKey key)
  | some d => (d.refusal? value).map (s.refused key value d)

def validate (s : Schema) (key : String) (value : Setting) (place : Place) : Except Fault Setting :=
  match s.objection? key value with
  | some trouble => .error ⟨trouble, place⟩
  | none => .ok value

def firstObjection? (s : Schema) (placeOf : String → Place) :
    List (String × Setting) → Option Fault
  | [] => none
  | (key, value) :: rest =>
    match s.objection? key value with
    | some trouble => some ⟨trouble, placeOf key⟩
    | none => s.firstObjection? placeOf rest

def validateAll (s : Schema) (modifiers : Table Setting) (placeOf : String → Place) :
    Except Fault (Table Setting) :=
  match s.firstObjection? placeOf modifiers.entries with
  | some fault => .error fault
  | none => .ok modifiers

end Schema

/-- Where the name of the command stands. -/
def Invocation.place (i : Invocation) : Place :=
  { line := some i.line, column := some i.column, command := some i.command }

/-- Why the modifiers of a command are not accepted. -/
inductive Rejection
  | missing (m : Missing)
  | fault (f : Fault)

def Invocation.validate (i : Invocation) (g : Grammar) : Except Rejection (Table Setting) :=
  match g.get i.command with
  | .error m => .error (.missing m)
  | .ok schema => (schema.validateAll i.modifiers fun _ => i.place).mapError .fault

end Directive
