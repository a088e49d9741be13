import Directive.Proofs.Run.Exact
import Directive.Proofs.Run.Reached

/-!
# How far an item got

The calls of an item are those of its first commands, in the order of the text. Counting them tells
at which step the item ended, and what the slots of its chains hold.

* `Halts`: why an item got no further;
* `CompletedItem`, `AbortedItem`: the report on it, against its calls;
* `Extent`, `extent_of_ofItem`: an item that has come to its report.
-/

namespace Directive

open Node (allInvocations)
open Program (Ends StepEnd ofNode ofSteps ofItem perform stepEnd started)

/-! ### Why an item ended -/

/-- Why an item got no further than some node, with `before` commands in front of it: the run was told
to stop, a reference means no earlier step, or the call of the node threw. -/
inductive Halts (culprit : Node) (step : Option Nat) (before : Nat) :
    List (Call × Outcome) → Fault → Prop
  | cancelled {exchanges : List (Call × Outcome)} (returned : AllReturned exchanges)
      (length : exchanges.length = before) :
      Halts culprit step before exchanges (culprit.stopped step)
  | unresolved {exchanges : List (Call × Outcome)} {i : Invocation} {phrase : String}
      {labels : List String} (command : culprit = .invocation i)
      (reference : i.input = some (.reference phrase)) (returned : AllReturned exchanges)
      (length : exchanges.length = before) :
      Halts culprit step before exchanges ⟨.unresolved phrase labels, i.placeAt step⟩
  | threw {exchanges : List (Call × Outcome)} {i : Invocation} {input : Value} {thrown : Thrown}
      (command : culprit = .invocation i) (returned : AllReturned exchanges)
      (length : exchanges.length = before) :
      Halts culprit step before (exchanges ++ [(i.call input, .threw thrown)])
        (thrown.faultIn i.command (i.placeAt step))

/-- The report on an item that completed. -/
inductive CompletedItem : Node → List (Call × Outcome) → ItemReport → Prop
  | command {i : Invocation} {input : Value} {report : ItemReport} (error : report.error = none) :
      CompletedItem (.invocation i) [(i.call input, .returned report.result)] report
  | chain {slot : Option String} {line column : Int} {steps : List Node}
      {exchanges : List (Call × Outcome)} {report : ItemReport}
      (keys : report.steps.map Slot.key = slotKeys steps)
      (kept : KeepsReturned exchanges 0 steps report.steps)
      (result : report.steps.getLast?.map Slot.value = some report.result)
      (error : report.error = none) :
      CompletedItem (.chain slot line column steps) exchanges report

/-- The report on an item that aborted. A chain keeps the slots of the steps before the one that it
failed at, and so do those of the chains inside it that failed with it. -/
inductive AbortedItem : Node → List (Call × Outcome) → ItemReport → Prop
  | command {i : Invocation} {exchanges : List (Call × Outcome)} {fault : Fault}
      {report : ItemReport} (halts : Halts (.invocation i) none 0 exchanges fault)
      (error : report.error = some fault) : AbortedItem (.invocation i) exchanges report
  | chain {slot : Option String} {line column : Int} {steps : List Node}
      {exchanges : List (Call × Outcome)} {report : ItemReport} {level : Level}
      {deeper : List Level} {culprit : Node} {index : Nat} {fault : Fault}
      (failedAt : FailedAt steps (level :: deeper) culprit index)
      (halts : Halts culprit (some index) (callsBefore (level :: deeper)) exchanges fault)
      (keys : ∀ l ∈ level :: deeper, l.slots.map Slot.key = slotKeys l.before)
      (kept : Kept exchanges (level :: deeper))
      (failedStep : report.failedStep = some (level.before.length : Int))
      (slots : report.steps = level.slots)
      (nestedSteps : report.nestedSteps = deeper.flatMap Level.slots)
      (error : report.error = some fault) :
      AbortedItem (.chain slot line column steps) exchanges report

/-- How far an item got: its calls, each with its outcome, against its commands and its report. -/
structure Extent (stopOnError : Bool) (n : Node) (exchanges : List (Call × Outcome))
    (report : ItemReport) : Prop where
  calls : ∀ (m : Nat) (x : Call × Outcome), exchanges[m]? = some x →
    ∃ i input, n.invocations[m]? = some i ∧ x.1 = i.call input
  completes : report.status = .completed ↔
    exchanges.length = n.invocations.length ∧ AllReturned exchanges
  completed : report.status = .completed → CompletedItem n exchanges report
  aborted : report.status = .aborted → AbortedItem n exchanges report
  skipped : report.status = .skipped → stopOnError = true ∧ exchanges = []

/-- The calls of an item that has halted do not all return, or there are no more than `before`. -/
theorem Halts.short {culprit : Node} {step : Option Nat} {before : Nat}
    {exchanges : List (Call × Outcome)} {fault : Fault}
    (h : Halts culprit step before exchanges fault) (returned : AllReturned exchanges) :
    exchanges.length = before := by
  cases h with
  | cancelled _ length => exact length
  | unresolved _ _ _ length => exact length
  | threw =>
    obtain ⟨value, hValue⟩ := returned _ (List.mem_append_right _ (List.mem_singleton_self _))
    cases hValue

section Ends

variable {r : Resolver} {exchanges : List (Call × Outcome)} {report : ItemReport} {item : Nat}

/-- A command of a chain that comes to nothing. -/
theorem halts_of_perform {i : Invocation} {table : SlotTable} {index : Nat} {fault : Fault}
    {first others : List (Call × Outcome)} (returned : AllReturned first)
    (h : (perform r i table (some index)).Ends (others.map replied) (.ok (.fault fault))) :
    Halts (.invocation i) (some index) first.length (first ++ others) fault := by
  obtain ⟨own, hInput, hNone, hEnd⟩ | ⟨input, source, reply, -, hCalls, hEnd⟩ :=
    Program.ends_perform r h
  · cases hEnd
    obtain ⟨phrase, labels, hReference, -, rfl⟩ := i.unresolved_of_resolveInput hInput
    rw [List.map_eq_nil_iff.mp hNone, List.append_nil]
    exact .unresolved rfl hReference returned rfl
  · obtain ⟨⟨call, o⟩, rfl, hReply⟩ := List.map_eq_singleton_iff.mp hCalls
    cases hReply
    rcases o with value | thrown
    · cases hEnd
    · rw [stepEnd_of_threw] at hEnd
      cases hEnd
      exact .threw rfl returned rfl

theorem Broken.halts {root : List Node} {levels : List Level} {culprit : Node} {index : Nat}
    {fault : Fault} (sound : Sound (some 0) root)
    (h : Broken r root (exchanges.map replied) levels culprit index fault) :
    Halts culprit (some index) (callsBefore levels) exchanges fault ∧ Kept exchanges levels := by
  generalize hCalls : exchanges.map replied = calls at h
  obtain @⟨front, back, outer, before, rest, culprit, run, fault, reaches, fails⟩ := h
  obtain ⟨first, others, rfl, rfl, rfl⟩ := List.map_eq_append_iff.mp hCalls
  obtain ⟨hReturned, hLength, hAround, hHere⟩ := reaches.reached_replied sound
  have hKept : Kept first (outer ++ [⟨before, run.table.slots⟩]) := .inside hAround hHere
  have hBefore : callsBefore (outer ++ [⟨before, run.table.slots⟩]) = first.length := by
    rw [callsBefore_append, callsBefore_singleton, hLength]
  rw [hBefore]
  refine ⟨?_, hKept.append others⟩
  generalize hOthers : others.map replied = back at fails
  cases fails with
  | stopped =>
    cases List.map_eq_nil_iff.mp hOthers
    rw [List.append_nil]
    exact .cancelled hReturned rfl
  | command ends =>
    subst hOthers
    exact halts_of_perform hReturned ends

/-- A command by itself refers to nothing, so that it halts only if it is told to or its call throws. -/
theorem ended_of_command {i : Invocation} (sound : Sound none [.invocation i])
    (h : (ofItem r item (.invocation i)).Ends (exchanges.map replied) (.ok report)) :
    report.status = .completed ∧ CompletedItem (.invocation i) exchanges report ∨
      report.status = .aborted ∧ AbortedItem (.invocation i) exchanges report := by
  rw [Program.ofItem_invocation] at h
  generalize hCalls : exchanges.map replied = calls at h
  cases h with
  | look stop rest =>
    cases stop with
    | true =>
      change (Program.afterCommand item i (.fault _)).Ends _ _ at rest
      cases rest with
      | note rest =>
        cases rest
        rw [List.map_eq_nil_iff.mp hCalls]
        exact .inr ⟨rfl, .command (.cancelled allReturned_nil rfl) rfl⟩
    | false =>
      obtain ⟨front, ended, back, hCall, hBack, rfl⟩ | ⟨_, -, hError⟩ :=
        Program.ends_task_bind.mp rest
      · obtain ⟨fault, hInput, -, -⟩ | ⟨input, source, reply, -, rfl, rfl⟩ :=
          Program.ends_perform r hCall
        · obtain ⟨phrase, labels, hReference, -, -⟩ := i.unresolved_of_resolveInput hInput
          cases sound with
          | command earlier _ =>
            obtain ⟨k, hStep⟩ := earlier phrase hReference
            cases hStep
        · obtain ⟨⟨call, o⟩, others, rfl, hReply, hOthers⟩ := List.map_eq_cons_iff.mp hCalls
          cases hReply
          subst hOthers
          rcases o with value | thrown
          · generalize hNone : others.map replied = none at hBack
            cases hBack
            cases List.map_eq_nil_iff.mp hNone
            exact .inl ⟨rfl,
              @CompletedItem.command i input (.completed item (.invocation i) value) rfl⟩
          · rw [stepEnd_of_threw] at hBack
            generalize hNone : others.map replied = none at hBack
            cases hBack with
            | note rest =>
              cases rest
              cases List.map_eq_nil_iff.mp hNone
              exact .inr ⟨rfl, .command (.threw rfl allReturned_nil rfl) rfl⟩
      · cases hError

theorem ended_of_chain {slot : Option String} {line column : Int} {steps : List Node}
    (nonempty : steps ≠ []) (sound : Sound (some 0) steps)
    (h : (ofItem r item (.chain slot line column steps)).Ends (exchanges.map replied) (.ok report)) :
    report.status = .completed ∧ CompletedItem (.chain slot line column steps) exchanges report ∨
      report.status = .aborted ∧ AbortedItem (.chain slot line column steps) exchanges report := by
  obtain ⟨run, hCloses, rfl⟩ := closes_of_ofItem h
  cases hCloses with
  | @completed run reaches _ =>
    have hReached := reaches.reached_replied sound
    exact .inl ⟨rfl, .chain reaches.keys hReached.here
      (run.result_of_keys reaches.keys nonempty) reaches.fresh.2.1⟩
  | @aborted level deeper culprit index fault broken =>
    rw [List.nil_append] at broken
    obtain ⟨hHalts, hKept⟩ := broken.halts sound
    exact .inr ⟨rfl, .chain broken.failedAt hHalts broken.keys hKept rfl rfl rfl rfl⟩

/-- Each call of an item is that of its command with the same number. -/
theorem calls_of_ofItem {n : Node}
    (h : (ofItem r item n).Ends (exchanges.map replied) (.ok report)) (m : Nat)
    (x : Call × Outcome) (hExchange : exchanges[m]? = some x) :
    ∃ i input, n.invocations[m]? = some i ∧ x.1 = i.call input := by
  obtain ⟨e, course, agrees⟩ := Program.course_of_ofItem h
  obtain ⟨hWithin, hGiven, -, -, -⟩ := callTrace_of_course course agrees
  have hBound : m < (n.plan r [] 0).leaves.length :=
    Nat.lt_of_lt_of_le (List.getElem?_eq_some_iff.mp hExchange).1 hWithin
  have hLeaf := List.getElem?_eq_getElem hBound
  obtain ⟨input, -, hCall⟩ := hGiven m _ x hLeaf hExchange
  refine ⟨_, input, ?_, hCall⟩
  rw [← n.invocations_plan r [] 0, List.getElem?_map, hLeaf]
  rfl

theorem AbortedItem.short {n : Node} (h : AbortedItem n exchanges report) {step : Option Nat}
    (sound : Sound step [n]) (returned : AllReturned exchanges) :
    exchanges.length < n.invocations.length := by
  cases h with
  | command halts _ =>
    rw [halts.short returned]
    exact Nat.zero_lt_one
  | chain failedAt halts _ _ _ _ _ _ =>
    rw [halts.short returned]
    exact failedAt.callsBefore_lt (sound.of_mem (List.mem_singleton_self _)).2

theorem extent_of_ofItem {n : Node} {stopOnError : Bool} (sound : Sound none [n])
    (h : (ofItem r item n).Ends (exchanges.map replied) (.ok report)) :
    Extent stopOnError n exchanges report := by
  have hEnded : report.status = .completed ∧ CompletedItem n exchanges report ∨
      report.status = .aborted ∧ AbortedItem n exchanges report := by
    cases n with
    | invocation i => exact ended_of_command sound h
    | chain slot line column steps =>
      obtain ⟨nonempty, inner⟩ := sound.of_mem (List.mem_singleton_self _)
      exact ended_of_chain nonempty inner h
  have hTrace : report.status = .completed →
      exchanges.length = n.invocations.length ∧ AllReturned exchanges := by
    intro hStatus
    obtain ⟨e, course, agrees⟩ := Program.course_of_ofItem h
    rw [← n.invocations_plan r [] 0, List.length_map]
    exact (callTrace_of_course course agrees).completed hStatus
  refine ⟨calls_of_ofItem h, ⟨hTrace, fun hAll => ?_⟩, fun hStatus => ?_, fun hStatus => ?_,
    fun hStatus => ?_⟩
  · obtain ⟨hStatus, -⟩ | ⟨-, hAborted⟩ := hEnded
    · exact hStatus
    · have hShort := hAborted.short sound hAll.2
      omega
  · obtain ⟨-, hCompleted⟩ | ⟨hAborted, -⟩ := hEnded
    · exact hCompleted
    · rw [hAborted] at hStatus
      cases hStatus
  · obtain ⟨hCompleted, -⟩ | ⟨-, hAborted⟩ := hEnded
    · rw [hCompleted] at hStatus
      cases hStatus
    · exact hAborted
  · obtain ⟨hCompleted, -⟩ | ⟨hAborted, -⟩ := hEnded
    · rw [hCompleted] at hStatus
      cases hStatus
    · rw [hAborted] at hStatus
      cases hStatus

/-- How far an item got whose report is earned. -/
theorem ItemReport.Earned.extent {n : Node} {stopOnError : Bool} {events : Journal}
    (h : report.Earned r stopOnError item n events) (sound : Sound none [n]) : ∃ exchanges,
      events.calls item = exchanges.map Prod.fst ∧ events.outcomes item = exchanges.map Prod.snd ∧
        Extent stopOnError n exchanges report := by
  cases h with
  | ended ends calls outcomes => exact ⟨_, calls, outcomes, extent_of_ofItem sound ends⟩
  | skipped stops skips =>
    refine ⟨[], skips.1, skips.2, by simp, ⟨by rintro ⟨⟩, fun hAll => ?_⟩, by rintro ⟨⟩,
      by rintro ⟨⟩, fun _ => ⟨stops, rfl⟩⟩
    exact absurd (List.length_eq_zero_iff.mp hAll.1.symm) (Sound.invocations_ne_nil n sound)

end Ends

end Directive
