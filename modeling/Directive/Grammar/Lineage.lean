import Directive.Grammar.Builtin
import Directive.Grammar.Data

/-!
# Lineage

A grammar, and which of its commands come from the built-in grammar untouched. Extending a grammar
leaves the commands alone that the extension does not define; a grammar that is read afresh has
nothing from the built-in one, even where the commands are alike.
-/

namespace Directive

structure Lineage where
  grammar : Grammar
  untouched : List String

namespace Lineage

def fresh (g : Grammar) : Lineage := ⟨g, []⟩

def builtin : Lineage := ⟨.builtin, Grammar.builtin.names⟩

def extend (l : Lineage) (data : Json) : Except Malformed Lineage := do
  let added ← Grammar.ofData data
  return ⟨l.grammar.merge added, l.untouched.filter fun name => !added.has name⟩

/-- Why a grammar cannot be written as data and read again. -/
inductive RebuildFailure
  | dump (f : DumpFailure)
  | read (m : Malformed)

/-- The grammar that the data form of a grammar gives. -/
def rebuild (l : Lineage) : Except RebuildFailure Lineage :=
  match l.grammar.toData with
  | .error f => .error (.dump f)
  | .ok data =>
    match Grammar.ofData data with
    | .error m => .error (.read m)
    | .ok g => .ok (fresh g)

/-- Whether the command comes from the built-in grammar. -/
def isUntouched (l : Lineage) (name : String) : Bool := l.untouched.contains name

end Lineage

end Directive
