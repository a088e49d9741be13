import Directive.Proofs.Run.Heard
import Directive.Proofs.Run.Reach
import Directive.Proofs.Script.Shape

/-!
# What the report on a chain accounts for

* `Fails`: how a step fails by itself;
* `broken_ofNode`, `closes_ofSteps`: a chain either completes or leaves the slots of every level
  around the step that failed;
* `Script.Runs.account`: the report on each chain of a script that is run.
-/

namespace Directive

open Program (Ends StepEnd ofNode ofSteps ofItem perform stepEnd started)

/-- How a step fails by itself, with the calls that it makes: it is not started because the run is
told to stop, or it is a command that comes to nothing. -/
inductive Fails (r : Resolver) (table : SlotTable) (index : Nat) :
    Node → List (Call × Reply) → Fault → Prop
  | stopped (step : Node) : Fails r table index step [] (step.stopped (some index))
  | command {i : Invocation} {calls : List (Call × Reply)} {fault : Fault}
      (ends : (perform r i table (some index)).Ends calls (.ok (.fault fault))) :
      Fails r table index (.invocation i) calls fault

/-- An item has failed: the levels of the chains around the step that failed, outermost first, this
step, and its number in its chain. -/
inductive Broken (r : Resolver) (root : List Node) :
    List (Call × Reply) → List Level → Node → Nat → Fault → Prop
  | of {front back : List (Call × Reply)} {outer : List Level} {before rest : List Node}
      {culprit : Node} {run : ChainRun} {fault : Fault}
      (reaches : Reaches r root front outer before (culprit :: rest) run)
      (fails : Fails r run.table before.length culprit back fault) :
      Broken r root (front ++ back) (outer ++ [⟨before, run.table.slots⟩]) culprit before.length
        fault

/-- What a chain behind some levels has come to. -/
inductive Closes (r : Resolver) (root : List Node) (calls : List (Call × Reply))
    (outer : List Level) (steps : List Node) (node : Node) : ChainRun → Prop
  | completed {run : ChainRun} (reaches : Reaches r root calls outer steps [] run)
      (same : run.node = node) : Closes r root calls outer steps node { run with state := .completed }
  | aborted {level : Level} {deeper : List Level} {culprit : Node} {index : Nat} {fault : Fault}
      (broken : Broken r root calls (outer ++ level :: deeper) culprit index fault) :
      Closes r root calls outer steps node
        { node, table := ⟨level.slots⟩, state := .aborted, step := some level.before.length,
          error := some fault, nested := deeper.flatMap Level.slots }

/-- An input is missing only where a reference means none of the slots before it. -/
theorem Invocation.unresolved_of_resolveInput {i : Invocation} {r : Resolver} {table : SlotTable}
    {step : Nat} {fault : Fault} (h : i.resolveInput r table step = .error fault) :
    ∃ phrase labels, i.input = some (.reference phrase) ∧ r.candidates phrase table step = [] ∧
      fault = ⟨.unresolved phrase labels, i.placeAt (some step)⟩ := by
  unfold Invocation.resolveInput at h
  split at h
  · cases h
  · cases h
  · rename_i phrase hInput
    unfold Resolver.resolve at h
    split at h
    · cases h
    · rename_i hNone
      cases h
      exact ⟨phrase, _, hInput, List.getLast?_eq_none_iff.mp hNone, rfl⟩

section Descent

variable {r : Resolver} {root : List Node} {front back : List (Call × Reply)}
  {outer : List Level} {before steps : List Node} {run : ChainRun}

theorem fault_of_stepEnd {i : Invocation} {index : Option Nat} {reply : Reply}
    {failure : StepFailure} (h : stepEnd i index reply = .result (.error failure)) :
    failure = ⟨failure.fault, []⟩ := by
  rcases reply with ((value | (f | f | reasons)) | seconds | _) <;> cases h <;> rfl

/-- A command that fails hands over no slots. -/
theorem fault_of_perform {i : Invocation} {table : SlotTable} {index : Option Nat}
    {failure : StepFailure}
    (h : (perform r i table index).Ends back (.ok (.result (.error failure)))) :
    failure = ⟨failure.fault, []⟩ := by
  obtain ⟨fault, -, -, hEnd⟩ | ⟨input, source, reply, -, -, hEnd⟩ := Program.ends_perform r h
  · cases hEnd
    rfl
  · exact fault_of_stepEnd hEnd.symm

mutual

theorem broken_ofNode : ∀ (step : Node) {front back : List (Call × Reply)} {outer : List Level}
    {before rest : List Node} {run : ChainRun} {failure : StepFailure},
    Reaches r root front outer before (step :: rest) run →
    (ofNode r run.table (some before.length) step).Ends back (.ok (.result (.error failure))) →
    ∃ deeper culprit index,
      Broken r root (front ++ back) (outer ++ ⟨before, run.table.slots⟩ :: deeper) culprit index
        failure.fault ∧
      failure.nested = deeper.flatMap Level.slots
  | .invocation i, _, _, _, _, _, _, failure, here, ends => by
    rw [ofNode] at ends
    obtain ⟨fault, nested⟩ := failure
    cases fault_of_perform ends
    exact ⟨[], _, _, .of here (.command ends), rfl⟩
  | .chain slot line column steps, front, _, outer, before, _, run, failure, here, ends => by
    rw [Program.ofNode_chain] at ends
    cases ends with
    | note rest =>
      obtain ⟨inner, run', back, hSteps, hBack, rfl⟩ | ⟨_, -, hError⟩ :=
        Program.ends_task_bind.mp rest
      · rcases run' with _ | run'
        · cases hBack
        · obtain ⟨rfl, hFailure⟩ := Program.ends_pure hBack
          have hCloses := closes_ofSteps steps here.inside hSteps
          rw [List.append_nil]
          rw [List.nil_append] at hCloses
          cases hCloses with
          | @completed run₁ reaches same =>
            have hError : run₁.error = none := reaches.fresh.2.1
            simp [ChainRun.nestedResult, hError] at hFailure
          | @aborted level deeper culprit index fault broken =>
            cases hFailure
            rw [List.append_assoc] at broken
            exact ⟨level :: deeper, culprit, index, broken, rfl⟩
      · cases hError

theorem closes_ofSteps : ∀ (steps : List Node) {front back : List (Call × Reply)}
    {outer : List Level} {before : List Node} {run run' : ChainRun},
    Reaches r root front outer before steps run →
    (ofSteps r before.length steps run).Ends back (.ok (some run')) →
    Closes r root (front ++ back) outer (before ++ steps) run.node run'
  | [], front, back, outer, before, run, run', here, ends => by
    rw [Program.ofSteps_nil r here.fresh.1] at ends
    cases ends with
    | note rest =>
      cases rest
      rw [List.append_nil, List.append_nil]
      exact .completed here rfl
  | step :: steps, front, back, outer, before, run, run', here, ends => by
    have hBroken (failure : StepFailure) {calls last : List (Call × Reply)} {deeper : List Level}
        {culprit : Node} {index : Nat}
        (h : Broken r root calls (outer ++ ⟨before, run.table.slots⟩ :: deeper) culprit index
          failure.fault) (hNested : failure.nested = deeper.flatMap Level.slots)
        (ends : (Program.afterStep r before.length step steps
          { run with step := some (before.length : Int) } (.result (.error failure))).Ends last
            (.ok (some run'))) :
        Closes r root (calls ++ last) outer (before ++ step :: steps) run.node run' := by
      cases ends with
      | note rest =>
        cases rest
        rw [List.append_nil, ChainRun.failed, hNested]
        exact .aborted h
    rw [Program.ofSteps_cons r here.fresh.1] at ends
    cases ends with
    | look stop rest =>
      cases stop with
      | true =>
        have hStopped := Broken.of here (.stopped step)
        rw [List.append_nil] at hStopped
        exact hBroken ⟨_, []⟩ hStopped rfl rest
      | false =>
        obtain ⟨middle, ended, last, hStep, hBack, rfl⟩ | ⟨_, -, hError⟩ :=
          Program.ends_task_bind.mp rest
        · rw [← List.append_assoc]
          rcases ended with (failure | value) | _
          · obtain ⟨deeper, culprit, index, h, hNested⟩ := broken_ofNode step here hStep
            exact hBroken failure h hNested hBack
          · rw [Program.afterStep_value] at hBack
            have hRest := closes_ofSteps steps (here.next hStep) hBack
            rwa [List.append_assoc before, List.singleton_append] at hRest
          · cases hBack with
            | note rest => cases rest
        · cases hError

end

end Descent

/-- Chains inside each other, outermost first, each of which has failed at the next one; the last of
them has failed at the culprit, which is its step with the given number. -/
inductive FailedAt : List Node → List Level → Node → Nat → Prop
  | here (level : Level) {culprit : Node} {rest : List Node} :
      FailedAt (level.before ++ culprit :: rest) [level] culprit level.before.length
  | inside (level : Level) {slot : Option String} {line column : Int} {steps rest : List Node}
      {deeper : List Level} {culprit : Node} {index : Nat}
      (further : FailedAt steps deeper culprit index) :
      FailedAt (level.before ++ .chain slot line column steps :: rest) (level :: deeper) culprit index

theorem Descends.failedAt {root inner : List Node} {outer levels : List Level} {culprit : Node}
    {index : Nat} (h : Descends root outer inner) (last : FailedAt inner levels culprit index) :
    FailedAt root (outer ++ levels) culprit index := by
  induction h generalizing levels with
  | here => exact last
  | inside _ ih =>
    rw [List.append_assoc]
    exact ih (.inside _ last)

namespace Broken

variable {r : Resolver} {root : List Node} {calls : List (Call × Reply)} {levels : List Level}
  {culprit : Node} {index : Nat} {fault : Fault}

theorem failedAt (h : Broken r root calls levels culprit index fault) :
    FailedAt root levels culprit index := by
  cases h with
  | of reaches _ => exact reaches.descends.failedAt (.here ⟨_, _⟩)

/-- Each of the chains has a slot for every step before the one at which it failed. -/
theorem keys (h : Broken r root calls levels culprit index fault) :
    ∀ level ∈ levels, level.slots.map Slot.key = slotKeys level.before := by
  cases h with
  | of reaches _ =>
    intro level hLevel
    rcases List.mem_append.mp hLevel with hLevel | hLevel
    · exact reaches.outer_keys level hLevel
    · cases List.mem_singleton.mp hLevel
      exact reaches.keys

/-- A fault says where the step stands that failed, unless it is one of an execution and the handler
threw it as it is. -/
theorem place (h : Broken r root calls levels culprit index fault) :
    fault.place = culprit.place (some index) ∨
      fault.kind = .execution ∧ ∃ call, (call, .outcome (.threw (.fault fault))) ∈ calls := by
  obtain @⟨front, back, outer, before, rest, _, run, _, -, fails⟩ := h
  cases fails with
  | stopped => exact .inl rfl
  | @command i _ _ ends =>
    obtain ⟨own, hInput, -, hEnd⟩ | ⟨input, source, reply, -, rfl, hEnd⟩ :=
      Program.ends_perform r ends
    · cases hEnd
      obtain ⟨phrase, labels, -, -, rfl⟩ := i.unresolved_of_resolveInput hInput
      exact .inl rfl
    · rcases reply with ((value | (f | f | reasons)) | seconds | _) <;> cases hEnd
      · by_cases hKind : f.kind = .execution
        · have hSame : f.thrownBy i.command (i.placeAt (some before.length)) = f := if_pos hKind
          rw [hSame]
          exact .inr ⟨hKind, _, List.mem_append_right _ (List.mem_singleton_self _)⟩
        · rw [Fault.thrownBy, if_neg hKind]
          exact .inl rfl
      · exact .inl rfl
      · exact .inl rfl
      · exact .inl rfl

end Broken

theorem ChainRun.result_of_keys {run : ChainRun} {steps : List Node}
    (keys : run.table.slots.map Slot.key = slotKeys steps) (nonempty : steps ≠ []) :
    run.table.slots.getLast?.map Slot.value = some run.result := by
  have hSlots : run.table.slots ≠ [] := by
    intro h
    rw [h] at keys
    have hLength := congrArg List.length keys
    rw [slotKeys, List.length_mapIdx] at hLength
    exact nonempty (List.length_eq_zero_iff.mp hLength.symm)
  rw [ChainRun.result, SlotTable.last?, List.getLast?_eq_some_getLast hSlots]
  rfl

/-- The report on a chain is that of what its steps have come to. -/
theorem closes_of_ofItem {r : Resolver} {item : Nat} {slot : Option String} {line column : Int}
    {steps : List Node} {calls : List (Call × Reply)} {report : ItemReport}
    (ends : (ofItem r item (.chain slot line column steps)).Ends calls (.ok report)) :
    ∃ run, Closes r steps calls [] steps (.chain slot line column steps) run ∧
      report = (run.report item).1 := by
  rw [Program.ofItem_chain] at ends
  cases ends with
  | note rest =>
    obtain ⟨front, run', back, hSteps, hBack, rfl⟩ | ⟨_, -, hError⟩ := Program.ends_task_bind.mp rest
    · rcases run' with _ | run'
      · cases hBack
      · obtain ⟨rfl, rfl⟩ := Program.ends_pure hBack
        have hCloses := closes_ofSteps steps (.first slot line column) hSteps
        rw [List.nil_append] at hCloses
        rw [List.append_nil]
        exact ⟨run', hCloses, rfl⟩
    · cases hError

/-- A chain that comes to its report has come to its end, and reports no fault, or to a step that
fails, and reports that. -/
theorem completed_or_fails_of_ofItem {r : Resolver} {item : Nat} {slot : Option String}
    {line column : Int} {steps : List Node} {calls : List (Call × Reply)} {report : ItemReport}
    (ends : (ofItem r item (.chain slot line column steps)).Ends calls (.ok report)) :
    (report.status = .completed ∧ report.error = none ∧
      ∃ run, Reaches r steps calls [] steps [] run) ∨
    (report.status = .aborted ∧ ∃ front back outer before culprit rest run fault,
      calls = front ++ back ∧ Reaches r steps front outer before (culprit :: rest) run ∧
        Fails r run.table before.length culprit back fault ∧ report.error = some fault) := by
  obtain ⟨run, hCloses, rfl⟩ := closes_of_ofItem ends
  cases hCloses with
  | @completed run reaches _ => exact .inl ⟨rfl, reaches.fresh.2.1, run, reaches⟩
  | @aborted level deeper culprit index fault broken =>
    generalize [] ++ level :: deeper = levels at broken
    cases broken with
    | of reaches fails =>
      exact .inr ⟨rfl, _, _, _, _, _, _, _, _, rfl, reaches, fails, rfl⟩

end Directive
