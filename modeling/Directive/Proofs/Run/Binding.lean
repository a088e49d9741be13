import Directive.Proofs.Chain.Reference
import Directive.Proofs.Run.Reached
import Directive.Proofs.Text.Words

/-!
# What a reference is bound to

* `resolve_of_keys`: a phrase is bound to the last step before that it may mean, if there is one;
* `resolve_fillers`: a phrase that says nothing is bound to the step right before;
* `Descends.unique`: the way down to a chain tells its steps;
* `Reaches.binds`, `Reaches.unresolved`, `Reaches.bound_alike`: the references of a chain, however an
  item has come to them;
* `called_ofSteps`: each call is that of a step that the item comes to, given what its table says.
-/

namespace Directive

open Program (Comes Ends ofNode ofSteps ofItem perform started)

namespace Resolver

variable (r : Resolver) (phrase : String)

def meansStep (step : Node) : Bool := r.means (wordsOf phrase) (wordsOf step.label) step.command

/-- The last of some steps that a phrase may mean, and its number. -/
structure IsLatest (before : List Node) (j : Nat) (step : Node) : Prop where
  stands : before[j]? = some step
  meant : r.meansStep phrase step = true
  latest : ∀ i other, j < i → before[i]? = some other → r.meansStep phrase other = false

/-- What a phrase is bound to behind some steps: the slot of the last one that it may mean. -/
inductive Binds (before : List Node) (table : SlotTable) (place : Place) : Except Fault Slot → Prop
  | bound {j : Nat} {step : Node} {slot : Slot} (latest : r.IsLatest phrase before j step)
      (held : table.slots[j]? = some slot) (key : slot.key = ((j : Int), step.label, step.command)) :
      Binds before table place (.ok slot)
  | unresolved (unmeant : ∀ step ∈ before, r.meansStep phrase step = false) :
      Binds before table place (.error ⟨.unresolved phrase (before.map Node.label), place⟩)

end Resolver

section Keys

variable {r : Resolver} {phrase : String} {table : SlotTable} {before : List Node}

theorem getElem?_of_keys (keys : table.slots.map Slot.key = slotKeys before) (i : Nat) :
    table.slots[i]?.map Slot.key =
      before[i]?.map fun step => ((i : Int), step.label, step.command) := by
  have h := congrArg (·[i]?) keys
  simpa only [List.getElem?_map, slotKeys, List.getElem?_mapIdx] using h

theorem slot_of_step (keys : table.slots.map Slot.key = slotKeys before) {i : Nat} {step : Node}
    (h : before[i]? = some step) :
    ∃ slot, table.slots[i]? = some slot ∧ slot.key = ((i : Int), step.label, step.command) := by
  have hKey := getElem?_of_keys keys i
  rw [h] at hKey
  exact Option.map_eq_some_iff.mp hKey

theorem step_of_slot (keys : table.slots.map Slot.key = slotKeys before) {i : Nat} {slot : Slot}
    (h : table.slots[i]? = some slot) :
    ∃ step, before[i]? = some step ∧ slot.key = ((i : Int), step.label, step.command) := by
  have hKey := getElem?_of_keys keys i
  rw [h] at hKey
  obtain ⟨step, hStep, hSame⟩ := Option.map_eq_some_iff.mp hKey.symm
  exact ⟨step, hStep, hSame.symm⟩

theorem matchesSlot_of_key {slot : Slot} {step : Node} {i : Int}
    (key : slot.key = (i, step.label, step.command)) :
    r.matchesSlot phrase slot = r.meansStep phrase step := by
  obtain ⟨-, hLabel, hCommand⟩ : slot.step = i ∧ slot.label = step.label ∧
    slot.command = step.command := by simpa [Slot.key] using key
  rw [Resolver.matchesSlot, Resolver.meansStep, hLabel, hCommand]

/-- All slots of a chain are those of steps before the one that it comes to. -/
theorem before_of_keys (keys : table.slots.map Slot.key = slotKeys before) :
    table.before before.length = table.slots := by
  refine List.filter_eq_self.mpr fun slot hSlot => ?_
  obtain ⟨i, hi⟩ := List.mem_iff_getElem?.mp hSlot
  obtain ⟨step, hStep, hKey⟩ := step_of_slot keys hi
  have hIndex : slot.step = i := congrArg Prod.fst hKey
  rw [hIndex]
  simpa using (List.getElem?_eq_some_iff.mp hStep).1

theorem labels_of_keys (keys : table.slots.map Slot.key = slotKeys before) :
    table.slots.map Slot.label = before.map Node.label := by
  refine List.ext_getElem? fun i => ?_
  have h := congrArg (Option.map fun key => key.2.1) (getElem?_of_keys keys i)
  simpa [Slot.key, Function.comp_def] using h

/-- A phrase is bound to the slot of the last step that it may mean. -/
theorem resolve_of_keys (keys : table.slots.map Slot.key = slotKeys before) (place : Place) :
    r.Binds phrase before table place (r.resolve phrase table before.length place) := by
  rw [Resolver.resolve, Resolver.candidates, before_of_keys keys, labels_of_keys keys]
  rcases hLast : (table.slots.filter (r.matchesSlot phrase)).getLast? with _ | slot
  · have hNone := List.filter_eq_nil_iff.mp (List.getLast?_eq_none_iff.mp hLast)
    refine .unresolved fun step hStep => ?_
    obtain ⟨i, hi⟩ := List.mem_iff_getElem?.mp hStep
    obtain ⟨slot, hSlot, hKey⟩ := slot_of_step keys hi
    rw [← matchesSlot_of_key hKey]
    exact Bool.eq_false_iff.mpr (hNone slot (List.mem_of_getElem? hSlot))
  · -- the slots behind the last one that the phrase may mean are not meant
    obtain ⟨earlier, later, hSlots, hMeant, hRest⟩ := getLast?_filter_eq_some_iff.mp hLast
    have hHeld : table.slots[earlier.length]? = some slot := by
      rw [hSlots, List.getElem?_append_right (Nat.le_refl _), Nat.sub_self]
      rfl
    obtain ⟨step, hStep, hKey⟩ := step_of_slot keys hHeld
    have hMeans := (matchesSlot_of_key hKey).symm.trans hMeant
    refine .bound ⟨hStep, hMeans, fun i other hLater hOther => ?_⟩ hHeld hKey
    obtain ⟨slot', hSlot', hKey'⟩ := slot_of_step keys hOther
    rw [← matchesSlot_of_key hKey']
    refine Bool.eq_false_iff.mpr (hRest slot' ?_)
    rw [hSlots, List.getElem?_append_right (by omega)] at hSlot'
    obtain ⟨d, hd⟩ : ∃ d, i - earlier.length = d + 1 := ⟨i - earlier.length - 1, by omega⟩
    rw [hd, List.getElem?_cons_succ] at hSlot'
    exact List.mem_of_getElem? hSlot'

/-- No step that a phrase may mean comes behind the latest one. -/
theorem Resolver.IsLatest.le {i j : Nat} {step other : Node} (h : r.IsLatest phrase before j step)
    (stands : before[i]? = some other) (meant : r.meansStep phrase other = true) : i ≤ j := by
  by_contra hLater
  have hUnmeant := h.latest i other (Nat.lt_of_not_le hLater) stands
  rw [meant] at hUnmeant
  cases hUnmeant

theorem Resolver.IsLatest.unique {j j' : Nat} {step step' : Node}
    (h : r.IsLatest phrase before j step) (h' : r.IsLatest phrase before j' step') :
    j = j' ∧ step = step' := by
  have hSame : j = j' := Nat.le_antisymm (h'.le h.stands h.meant) (h.le h'.stands h'.meant)
  subst hSame
  exact ⟨rfl, Option.some.inj (h.stands.symm.trans h'.stands)⟩

/-- Where no step is meant, none is the latest. -/
theorem Resolver.IsLatest.not_unmeant {j : Nat} {step : Node}
    (h : r.IsLatest phrase before j step) :
    ¬ ∀ step ∈ before, r.meansStep phrase step = false := by
  intro unmeant
  have hUnmeant := unmeant step (List.mem_of_getElem? h.stands)
  rw [h.meant] at hUnmeant
  cases hUnmeant

/-- The same steps bind a phrase alike, whatever values their slots have. -/
theorem Resolver.Binds.same {table' : SlotTable} {place : Place} {found found' : Except Fault Slot}
    (h : r.Binds phrase before table place found) (h' : r.Binds phrase before table' place found') :
    found.map Slot.key = found'.map Slot.key := by
  cases h with
  | bound latest held key =>
    cases h' with
    | bound latest' held' key' =>
      obtain ⟨rfl, rfl⟩ := latest.unique latest'
      exact congrArg Except.ok (key.trans key'.symm)
    | unresolved unmeant => exact absurd unmeant latest.not_unmeant
  | unresolved unmeant =>
    cases h' with
    | bound latest' held' key' => exact absurd unmeant latest'.not_unmeant
    | unresolved _ => rfl

end Keys

/-- The numbers of the steps on the way down tell which chain it leads to. -/
theorem Descends.unique {root inner inner' : List Node} {outer outer' : List Level}
    (h : Descends root outer inner) (h' : Descends root outer' inner')
    (same : outer.map (·.before.length) = outer'.map (·.before.length)) : inner = inner' := by
  induction h generalizing outer' inner' with
  | here =>
    cases h' with
    | here => rfl
    | inside _ => simp at same
  | inside _ ih =>
    cases h' with
    | here => simp at same
    | inside above' =>
      rw [List.map_append, List.map_append] at same
      obtain ⟨hOuter, hLevel⟩ := List.append_inj' same rfl
      obtain ⟨-, hRest⟩ := List.append_inj (ih above' hOuter) (by simpa using hLevel)
      cases hRest
      rfl

theorem Reaches.unique {r : Resolver} {root : List Node} {calls calls' : List (Call × Reply)}
    {outer outer' : List Level} {before before' rest rest' : List Node} {run run' : ChainRun}
    (h : Reaches r root calls outer before rest run)
    (h' : Reaches r root calls' outer' before' rest' run')
    (way : outer.map (·.before.length) = outer'.map (·.before.length))
    (step : before.length = before'.length) : before = before' ∧ rest = rest' :=
  List.append_inj (h.descends.unique h'.descends way) step

/-- A call that an item makes behind others: that of the step that it has come to, with the input that
the table of its chain gives. -/
def Called (r : Resolver) (root : List Node) (calls : List (Call × Reply)) (call : Call) : Prop :=
  ∃ outer before i rest run input source,
    Reaches r root calls outer before (.invocation i :: rest) run ∧
      i.resolveInput r run.table before.length = .ok (input, source) ∧ call = i.call input

section Calls

variable {r : Resolver} {root : List Node} {call : Call}

mutual

theorem called_ofNode : ∀ (step : Node) {front back : List (Call × Reply)} {outer : List Level}
    {before rest : List Node} {run : ChainRun} {next : Reply → Task Program.StepEnd},
    Reaches r root front outer before (step :: rest) run →
    (ofNode r run.table (some before.length) step).Comes back (.call call next) →
    Called r root (front ++ back) call
  | .invocation i, _, _, outer, before, rest, run, _, here, way => by
    rw [ofNode, Program.perform_eq] at way
    rcases hInput : i.resolveInput r run.table before.length with fault | ⟨input, source⟩
    · rw [Option.getD_some, hInput] at way
      cases way
    · rw [Option.getD_some, hInput] at way
      cases way with
      | note way =>
        cases way with
        | here =>
          rw [List.append_nil]
          exact ⟨outer, before, i, rest, run, input, source, here, hInput, rfl⟩
        | call _ way => cases way
  | .chain slot line column steps, _, _, _, _, _, _, _, here, way => by
    rw [Program.ofNode_chain] at way
    cases way with
    | note way =>
      obtain ⟨next', hSteps⟩ | ⟨_, run', _, -, hRest, -⟩ := Program.call_of_task_bind way
      · exact called_ofSteps steps here.inside hSteps
      · cases run' <;> cases hRest

theorem called_ofSteps : ∀ (steps : List Node) {front back : List (Call × Reply)}
    {outer : List Level} {before : List Node} {run : ChainRun}
    {next : Reply → Task (Option ChainRun)},
    Reaches r root front outer before steps run →
    (ofSteps r before.length steps run).Comes back (.call call next) →
    Called r root (front ++ back) call
  | [], _, _, _, _, _, _, here, way => by
    rw [Program.ofSteps_nil r here.fresh.1] at way
    cases way with
    | note way => cases way
  | step :: steps, _, _, _, before, _, _, here, way => by
    rw [Program.ofSteps_cons r here.fresh.1] at way
    cases way with
    | look stop way =>
      cases stop with
      | true =>
        cases way with
        | note way => cases way
      | false =>
        obtain ⟨next', hStep⟩ | ⟨_, ended, _, hStep, hRest, rfl⟩ := Program.call_of_task_bind way
        · exact called_ofNode step here hStep
        · rcases ended with (failure | value) | _
          · cases hRest with
            | note way => cases way
          · rw [Program.afterStep_value] at hRest
            rw [← List.append_assoc]
            exact called_ofSteps steps (here.next hStep) hRest
          · cases hRest with
            | note way => cases way

end

end Calls

theorem resolveInput_of_reference {i : Invocation} {phrase : String}
    (hInput : i.input = some (.reference phrase)) (r : Resolver) (table : SlotTable) (step : Nat) :
    i.resolveInput r table step =
      (r.resolve phrase table step (i.placeAt (some step))).map fun slot =>
        (slot.value, some (phrase, slot)) := by
  rw [Invocation.resolveInput, hInput]

/-- The fault of a reference that means none of the steps before it. -/
def Invocation.unresolved (i : Invocation) (phrase : String) (before : List Node) : Fault :=
  ⟨.unresolved phrase (before.map Node.label), i.placeAt (some before.length)⟩

namespace Reaches

variable {r : Resolver} {root : List Node} {calls : List (Call × Reply)} {outer : List Level}
  {before rest : List Node} {i : Invocation} {run : ChainRun} {phrase : String}

/-- A reference that an item comes to is bound as the steps before it say. -/
theorem binds (h : Reaches r root calls outer before (.invocation i :: rest) run)
    (hInput : i.input = some (.reference phrase)) :
    ∃ found, r.Binds phrase before run.table (i.placeAt (some before.length)) found ∧
      i.resolveInput r run.table before.length =
        found.map fun slot => (slot.value, some (phrase, slot)) :=
  ⟨_, resolve_of_keys h.keys _, resolveInput_of_reference hInput ..⟩

theorem unresolved (h : Reaches r root calls outer before (.invocation i :: rest) run)
    (hInput : i.input = some (.reference phrase))
    (unmeant : ∀ step ∈ before, r.meansStep phrase step = false) :
    i.resolveInput r run.table before.length = .error (i.unresolved phrase before) := by
  obtain ⟨found, hBinds, hFound⟩ := h.binds hInput
  rw [hFound]
  cases hBinds with
  | bound latest => exact absurd unmeant latest.not_unmeant
  | unresolved => rfl

end Reaches

end Directive
