import Directive.Table
import Directive.Value

/-!
# Slots

A slot keeps the result of one step of a chain. A slot table holds the slots of a chain in the
order in which they were filled; labels may repeat.
-/

namespace Directive

structure Slot where
  step : Int
  label : String
  command : String
  value : Value

structure SlotTable where
  slots : List Slot := []

namespace SlotTable

def empty : SlotTable := {}

def store (t : SlotTable) (slot : Slot) : SlotTable := ⟨t.slots ++ [slot]⟩

/-- The slots of the steps before a given one. -/
def before (t : SlotTable) (step : Int) : List Slot := t.slots.filter (·.step < step)

def labels (t : SlotTable) : List String := t.slots.map Slot.label

def last? (t : SlotTable) : Option Slot := t.slots.getLast?

def size (t : SlotTable) : Nat := t.slots.length

@[simp]
theorem slots_store (t : SlotTable) (slot : Slot) : (t.store slot).slots = t.slots ++ [slot] := rfl

@[simp]
theorem size_store (t : SlotTable) (slot : Slot) : (t.store slot).size = t.size + 1 := by
  simp [size]

end SlotTable

/-- The values of some slots by label. The last slot with a label counts. -/
def valuesByLabel (slots : List Slot) : Table Value :=
  Table.ofList (slots.map fun s => (s.label, s.value))

end Directive
