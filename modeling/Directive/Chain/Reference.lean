import Directive.Chain.Slot
import Directive.Fault
import Directive.Text.Case

/-!
# References

A phrase in place of an input stands for the result of an earlier step. Words are compared without
regard to capitals, and filler words such as articles say nothing.

* `Resolver.matchesSlot`: whether a phrase may mean a slot;
* `Resolver.resolve`: the latest slot before a step that the phrase may mean.
-/

namespace Directive

/-- The words that say nothing, in small letters. -/
structure Resolver where
  fillers : List String

namespace Resolver

def ofWords (words : List String) : Resolver := ⟨words.map Text.lower⟩

def standard : Resolver :=
  ofWords ["the", "a", "an", "previous", "last", "above", "prior", "result", "results", "output",
    "outputs", "of", "from"]

def wordsOf (phrase : String) : List String := Text.words (Text.lower phrase)

/-- Whether some words stand side by side among others. -/
def isRunOf (run : List String) : List String → Bool
  | [] => run.isEmpty
  | w :: ws => run.isPrefixOf (w :: ws) || isRunOf run ws

variable (r : Resolver)

def core (words : List String) : List String := words.filter (· ∉ r.fillers)

/-- Whether a phrase of the given words may mean a slot with the given label and command. -/
def means (phrase label : List String) (command : String) : Bool :=
  (!label.isEmpty && isRunOf label phrase)
    || (!phrase.isEmpty && isRunOf phrase label)
    || if (r.core phrase).isEmpty then !phrase.isEmpty
       else r.core phrase == r.core label || r.core phrase == [Text.lower command]

def matchesSlot (phrase : String) (slot : Slot) : Bool :=
  r.means (wordsOf phrase) (wordsOf slot.label) slot.command

def candidates (phrase : String) (table : SlotTable) (step : Int) : List Slot :=
  (table.before step).filter (r.matchesSlot phrase)

def resolve (phrase : String) (table : SlotTable) (step : Int) (place : Place) :
    Except Fault Slot :=
  match (r.candidates phrase table step).getLast? with
  | some slot => .ok slot
  | none => .error ⟨.unresolved phrase ((table.before step).map Slot.label), place⟩

end Resolver

end Directive
