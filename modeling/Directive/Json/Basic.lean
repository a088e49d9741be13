import Directive.Number.Text
import Directive.Text.Quoted

/-!
# Data values

Values as they stand in documents and pass between steps. Whole numbers and numbers with a point
are kept apart, and an object keeps the order of its fields.

* `Json.display`: how a value is shown inside a message;
* `Json.message`: the same, but a text stands for itself.
-/

namespace Directive

inductive Json
  | null
  | bool (b : Bool)
  | int (i : Int)
  | float (x : Binary64)
  | str (s : String)
  | arr (items : List Json)
  | obj (fields : List (String × Json))

namespace Json

instance : Inhabited Json := ⟨.null⟩

def get? (j : Json) (name : String) : Option Json :=
  match j with
  | .obj fields => fields.lookup name
  | _ => none

def strings? : List Json → Option (List String)
  | [] => some []
  | .str s :: js => (strings? js).map (s :: ·)
  | _ :: _ => none

mutual

def display : Json → String
  | .null => "None"
  | .bool b => if b then "True" else "False"
  | .int i => toString i
  | .float x => x.text
  | .str s => Text.quoted s
  | .arr items => "[" ++ ", ".intercalate (displayItems items) ++ "]"
  | .obj fields => "\x7b" ++ ", ".intercalate (displayFields fields) ++ "\x7d"

def displayItems : List Json → List String
  | [] => []
  | j :: js => display j :: displayItems js

def displayFields : List (String × Json) → List String
  | [] => []
  | (k, j) :: fs => (Text.quoted k ++ ": " ++ display j) :: displayFields fs

end

def message : Json → String
  | .str s => s
  | j => j.display

end Json

/-- The message that the values given with a failure make. -/
def joinedMessage : List Json → String
  | [] => ""
  | [j] => j.message
  | js => "(" ++ ", ".intercalate (js.map Json.display) ++ ")"

end Directive
