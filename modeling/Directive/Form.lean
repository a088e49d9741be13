import Directive.Data.Reading
import Directive.Json.Reader
import Directive.Value

/-!
# Forms

A form tells a model which fields its answer must have.

* `Form.schema`: the form in words that a model understands;
* `Form.ofDocument`: the record that an answer gives, or what is wrong with the answer.
-/

namespace Directive

inductive FieldKind
  | text
  | number
deriving DecidableEq

structure FormField where
  name : String
  title : String
  kind : FieldKind
deriving DecidableEq

structure Form where
  name : String
  fields : List FormField
deriving DecidableEq

namespace FieldKind

def schemaName : FieldKind → String
  | .text => "string"
  | .number => "number"

def read (origin : Origin) : FieldKind → Json → Reading Json
  | .text, j => (readText j).map .str
  | .number, j => (readNumber origin j).map .float

end FieldKind

namespace Form

def schema (f : Form) : Json :=
  .obj
    [("properties", .obj (f.fields.map fun d =>
        (d.name, .obj [("title", .str d.title), ("type", .str d.kind.schemaName)]))),
     ("required", .arr (f.fields.map fun d => .str d.name)),
     ("title", .str f.name),
     ("type", .str "object")]

def readFields (origin : Origin) (given : List (String × Json)) :
    List FormField → Reading (List (String × Json))
  | [] => .ok []
  | d :: ds =>
    ((field given d.name none (d.kind.read origin)).both (readFields origin given ds)).map
      fun p => (d.name, p.1) :: p.2

def read (f : Form) (origin : Origin) : Json → Reading Value
  | .obj given => (readFields origin given f.fields).map (.record f.name)
  | _ => .fail (.notForm origin f.name)

def ofReading (f : Form) : Reading Value → Except Malformed Value
  | .ok v => .ok v
  | .error vs => .error ⟨f.name, vs⟩

def ofData (f : Form) (data : Json) : Except Malformed Value := f.ofReading (f.read .memory data)

def ofDocument (f : Form) (text : String) : Except Malformed Value :=
  match Json.readDocument? text with
  | some data => f.ofReading (f.read .document data)
  | none => .error ⟨f.name, [⟨[], .notDocument⟩]⟩

end Form

end Directive
