import Directive.Json.Writer

/-!
# Values

What commands take and give: data, or a record of a named form.
-/

namespace Directive

inductive Value
  | data (j : Json)
  | record (form : String) (fields : List (String × Json))

namespace Value

def null : Value := .data .null

def text (s : String) : Value := .data (.str s)

instance : Inhabited Value := ⟨null⟩

/-- The value of a literal with the given parts: a text if there is one part, else a list. -/
def ofParts : List String → Value
  | [part] => text part
  | parts => .data (.arr (parts.map .str))

end Value

end Directive
