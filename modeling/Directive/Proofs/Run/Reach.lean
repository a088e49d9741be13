import Directive.Proofs.Run.Trace

/-!
# Where an item may stand

* `Reaches`: an item that is a chain comes to a step, of itself or of a chain inside it, and its own
  run and those of the chains on the way are in some state;
* `Reaches.fresh`, `Reaches.keys`, `Reaches.descends`: these states, their slots, and the way down.
-/

namespace Directive

open Program (Ends ofNode started)

/-- What a slot says of the step that filled it. -/
def Slot.key (s : Slot) : Int × String × String := (s.step, s.label, s.command)

/-- What the slots of a chain say if exactly the given steps have filled them, in order. -/
def slotKeys (steps : List Node) : List (Int × String × String) :=
  steps.mapIdx fun k step => ((k : Int), step.label, step.command)

theorem slotKeys_concat (before : List Node) (step : Node) :
    slotKeys (before ++ [step]) =
      slotKeys before ++ [((before.length : Int), step.label, step.command)] :=
  List.mapIdx_concat

/-- A chain on the way down to a step: its steps before that way, and the slots that it has. -/
structure Level where
  before : List Node
  slots : List Slot

/-- The steps of a chain further down, behind some levels. -/
inductive Descends (root : List Node) : List Level → List Node → Prop
  | here : Descends root [] root
  | inside {outer : List Level} {level : Level} {slot : Option String} {line column : Int}
      {steps rest : List Node}
      (above : Descends root outer (level.before ++ .chain slot line column steps :: rest)) :
      Descends root (outer ++ [level]) steps

/-- An item comes to the first of the steps `rest` of a chain behind those `before`; the chain and
those around it are in some state, and the item has been told how its calls ended. -/
inductive Reaches (r : Resolver) (root : List Node) :
    List (Call × Reply) → List Level → List Node → List Node → ChainRun → Prop
  | first (slot : Option String) (line column : Int) :
      Reaches r root [] [] [] root (started slot line column root)
  | next {front back : List (Call × Reply)} {outer : List Level} {before rest : List Node}
      {step : Node} {run : ChainRun} {value : Value}
      (here : Reaches r root front outer before (step :: rest) run)
      (ends : (ofNode r run.table (some before.length) step).Ends back (.ok (.result (.ok value)))) :
      Reaches r root (front ++ back) outer (before ++ [step]) rest
        (ChainRun.fill { run with step := some (before.length : Int) } before.length step value)
  | inside {calls : List (Call × Reply)} {outer : List Level} {before rest steps : List Node}
      {slot : Option String} {line column : Int} {run : ChainRun}
      (here : Reaches r root calls outer before (.chain slot line column steps :: rest) run) :
      Reaches r root calls (outer ++ [⟨before, run.table.slots⟩]) [] steps
        (started slot line column steps)

namespace Reaches

variable {r : Resolver} {root : List Node} {calls : List (Call × Reply)} {outer : List Level}
  {before rest : List Node} {run : ChainRun}

/-- A chain that has come to a step runs, and none of its steps has failed. -/
theorem fresh (h : Reaches r root calls outer before rest run) :
    run.state = .running ∧ run.error = none ∧ run.nested = [] := by
  induction h with
  | first => exact ⟨rfl, rfl, rfl⟩
  | next _ _ ih => exact ih
  | inside _ _ => exact ⟨rfl, rfl, rfl⟩

/-- The slots of a chain are those of its steps so far, in order, whatever goes on around it. -/
theorem keys (h : Reaches r root calls outer before rest run) :
    run.table.slots.map Slot.key = slotKeys before := by
  induction h with
  | first => rfl
  | next _ _ ih =>
    rw [slotKeys_concat, ← ih]
    exact List.map_append
  | inside _ _ => rfl

theorem outer_keys (h : Reaches r root calls outer before rest run) :
    ∀ level ∈ outer, level.slots.map Slot.key = slotKeys level.before := by
  induction h with
  | first => simp
  | next _ _ ih => exact ih
  | inside here ih =>
    intro level hLevel
    rcases List.mem_append.mp hLevel with hLevel | hLevel
    · exact ih level hLevel
    · cases List.mem_singleton.mp hLevel
      exact here.keys

theorem descends (h : Reaches r root calls outer before rest run) :
    Descends root outer (before ++ rest) := by
  induction h with
  | first => exact .here
  | next _ _ ih => rwa [List.append_assoc]
  | inside _ ih => exact .inside ih

end Reaches

/-- Behind a step that has a value, a chain comes to the next one. -/
theorem Program.afterStep_value (r : Resolver) (before : List Node) (step : Node)
    (steps : List Node) (run : ChainRun) (value : Value) :
    afterStep r before.length step steps run (.result (.ok value)) =
      ofSteps r (before ++ [step]).length steps (run.fill before.length step value) := by
  rw [List.length_append]
  rfl

end Directive
