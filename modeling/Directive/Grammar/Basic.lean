import Directive.Missing
import Directive.Schema

/-!
# Grammars

The commands that scripts may use, by name. Names are looked up as they are, capitals and all.
-/

namespace Directive

structure Grammar where
  schemas : Table Schema

namespace Grammar

def empty : Grammar := ⟨.empty⟩

instance : Inhabited Grammar := ⟨empty⟩

/-- The grammar of some schemas, each under its own name. -/
def ofSchemas (schemas : List Schema) : Grammar := ⟨Table.ofList (schemas.map fun s => (s.name, s))⟩

def names (g : Grammar) : List String := g.schemas.keys

def has (g : Grammar) (name : String) : Bool := g.schemas.contains name

def find? (g : Grammar) (name : String) : Option Schema := g.schemas.get? name

def get (g : Grammar) (name : String) : Except Missing Schema :=
  match g.find? name with
  | some s => .ok s
  | none => .error (.command name g.names)

def size (g : Grammar) : Nat := g.schemas.size

/-- The commands of both; the second's schema counts for a command that both have. -/
def merge (g h : Grammar) : Grammar := ⟨g.schemas.merge h.schemas⟩

end Grammar

end Directive
