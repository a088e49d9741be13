import Directive.Proofs.Run.Account

/-!
# What items fail on

* `Cause`: the run is told to stop, a reference means no earlier step, or a call comes to no value;
* `FailsOn`, `ItemFailsOn`: how a step fails on one of these, and how an item does;
* `completed_or_failsOn`: an item that comes to its report has completed, or it has failed;
* `aborted_of_threw`: an item aborts if its handler throws, with a fault of an execution.
-/

namespace Directive

open Program (Ends StepEnd ofItem perform stepEnd)

inductive Cause
  | stopped
  | reference
  | call
deriving DecidableEq

/-- The category of the fault that is reported. -/
def Cause.kind : Cause → FaultKind
  | .reference => .binding
  | _ => .execution

/-- How a step fails by itself, with the calls that it makes: it is not started, its reference means
none of the slots before it, or its call comes to no value. -/
inductive FailsOn (r : Resolver) (table : SlotTable) (index : Option Nat) :
    Cause → Node → List (Call × Reply) → Fault → Prop
  | stopped (step : Node) : FailsOn r table index .stopped step [] (step.stopped index)
  | reference {i : Invocation} {phrase : String} {labels : List String}
      (refers : i.input = some (.reference phrase))
      (unmatched : r.candidates phrase table (index.getD 0) = []) :
      FailsOn r table index .reference (.invocation i) []
        ⟨.unresolved phrase labels, i.placeAt (some (index.getD 0))⟩
  | call {i : Invocation} {input : Value} {source : Option (String × Slot)} {reply : Reply}
      {fault : Fault} (resolved : i.resolveInput r table (index.getD 0) = .ok (input, source))
      (noValue : stepEnd i index reply = .fault fault) :
      FailsOn r table index .call (.invocation i) [(i.call input, reply)] fault

/-- How an item fails: it is a command, or a chain that has come to a step, of itself or of a chain
inside it, which fails. -/
inductive ItemFailsOn (r : Resolver) (cause : Cause) : Node → List (Call × Reply) → Fault → Prop
  | command {i : Invocation} {calls : List (Call × Reply)} {fault : Fault}
      (fails : FailsOn r .empty none cause (.invocation i) calls fault) :
      ItemFailsOn r cause (.invocation i) calls fault
  | step {slot : Option String} {line column : Int} {steps : List Node}
      {front back : List (Call × Reply)} {outer : List Level} {before rest : List Node}
      {culprit : Node} {run : ChainRun} {fault : Fault}
      (reaches : Reaches r steps front outer before (culprit :: rest) run)
      (fails : FailsOn r run.table (some before.length) cause culprit back fault) :
      ItemFailsOn r cause (.chain slot line column steps) (front ++ back) fault

/-! ### Categories -/

theorem Thrown.kind_faultIn (t : Thrown) (command : String) (place : Place) :
    (t.faultIn command place).kind = .execution := by
  cases t with
  | fault f =>
    rw [Thrown.faultIn, Fault.thrownBy]
    split
    · assumption
    · rfl
  | failure f => rfl
  | cancelled reasons => rfl

theorem kind_of_stepEnd {i : Invocation} {index : Option Nat} {reply : Reply}
    {failure : StepFailure} (h : stepEnd i index reply = .result (.error failure)) :
    failure.fault.kind = .execution := by
  rcases reply with (value | thrown) | seconds | _
  · cases h
  · rw [stepEnd_of_threw] at h
    cases h
    exact thrown.kind_faultIn ..
  · cases h
    rfl
  · cases h

section Failing

variable {r : Resolver} {table : SlotTable} {index : Option Nat} {cause : Cause} {n : Node}
  {calls : List (Call × Reply)} {fault : Fault}

theorem FailsOn.kind (h : FailsOn r table index cause n calls fault) : fault.kind = cause.kind := by
  cases h with
  | stopped => rfl
  | reference => rfl
  | call _ noValue => exact kind_of_stepEnd noValue

theorem ItemFailsOn.kind (h : ItemFailsOn r cause n calls fault) : fault.kind = cause.kind := by
  cases h with
  | command fails => exact fails.kind
  | step _ fails => exact fails.kind

theorem failsOn_of_perform {i : Invocation} {failure : StepFailure}
    (h : (perform r i table index).Ends calls (.ok (.result (.error failure)))) :
    ∃ cause, FailsOn r table index cause (.invocation i) calls failure.fault := by
  obtain ⟨fault, hInput, rfl, hEnd⟩ | ⟨input, source, reply, hInput, rfl, hEnd⟩ :=
    Program.ends_perform r h
  · cases hEnd
    obtain ⟨phrase, labels, hRefers, hUnmatched, rfl⟩ := i.unresolved_of_resolveInput hInput
    exact ⟨.reference, .reference hRefers hUnmatched⟩
  · have hFault := fault_of_stepEnd hEnd.symm
    rw [hFault] at hEnd
    exact ⟨.call, .call hInput hEnd.symm⟩

end Failing

/-! ### Items -/

section Items

variable {r : Resolver} {item : Nat} {n : Node} {calls : List (Call × Reply)}
  {report : ItemReport} {events : Journal}

/-- A command ends its item with its value, or as it fails. -/
theorem afterCommand_ended {i : Invocation} {ended : StepEnd}
    (h : (Program.afterCommand item i ended).Ends calls (.ok report)) : calls = [] ∧
      ((∃ value, ended = .result (.ok value) ∧ report = .completed item (.invocation i) value) ∨
        ∃ failure, ended = .result (.error failure) ∧
          report = .aborted item (.invocation i) failure.fault) := by
  rcases ended with (failure | value) | _
  · cases h with
    | note rest =>
      cases rest
      exact ⟨rfl, .inr ⟨failure, rfl, rfl⟩⟩
  · obtain ⟨rfl, rfl⟩ := Program.ends_pure h
    exact ⟨rfl, .inl ⟨value, rfl, rfl⟩⟩
  · cases h

/-- An item that comes to its report has completed, and reports no fault, or it has failed on
something, and reports that. -/
theorem completed_or_failsOn (h : (ofItem r item n).Ends calls (.ok report)) :
    report.status = .completed ∧ report.error = none ∨
      report.status = .aborted ∧ ∃ cause fault, report.error = some fault ∧
        ItemFailsOn r cause n calls fault := by
  cases n with
  | invocation i =>
    rw [Program.ofItem_invocation] at h
    cases h with
    | look stop rest =>
      cases stop with
      | true =>
        change (Program.afterCommand item i (.fault _)).Ends _ _ at rest
        obtain ⟨rfl, ⟨value, hEnded, -⟩ | ⟨failure, hEnded, rfl⟩⟩ := afterCommand_ended rest
        · cases hEnded
        · cases hEnded
          exact .inr ⟨rfl, .stopped, _, rfl, .command (.stopped _)⟩
      | false =>
        obtain ⟨front, ended, back, hCall, hBack, rfl⟩ | ⟨_, -, hError⟩ :=
          Program.ends_task_bind.mp rest
        · obtain ⟨rfl, ⟨value, rfl, rfl⟩ | ⟨failure, rfl, rfl⟩⟩ := afterCommand_ended hBack
          · exact .inl ⟨rfl, rfl⟩
          · obtain ⟨cause, fails⟩ := failsOn_of_perform hCall
            rw [List.append_nil]
            exact .inr ⟨rfl, cause, _, rfl, .command fails⟩
        · cases hError
  | chain slot line column steps =>
    obtain ⟨hStatus, hError, -⟩ | ⟨hStatus, front, back, outer, before, culprit, rest, run, fault,
      rfl, reaches, fails, hError⟩ := completed_or_fails_of_ofItem h
    · exact .inl ⟨hStatus, hError⟩
    · cases fails with
      | stopped => exact .inr ⟨hStatus, .stopped, _, hError, .step reaches (.stopped _)⟩
      | command ends =>
        obtain ⟨cause, fails⟩ := failsOn_of_perform ends
        exact .inr ⟨hStatus, cause, _, hError, .step reaches fails⟩

/-- An item aborts if its handler throws, whatever that is, and reports a fault of an execution. -/
theorem aborted_of_threw (h : report.Attended r item n events) {t : Thrown}
    (threw : .threw t ∈ events.outcomes item) : report.status = .aborted ∧
      ∃ fault, report.error = some fault ∧ fault.kind = .execution := by
  obtain ⟨calls, hEnds, hHeard⟩ := h
  obtain ⟨call, reply, hCall, hReply⟩ := hHeard.conveyed.reply threw
  obtain ⟨e, course, agrees⟩ := Program.course_of_ofItem hEnds
  have hNoValue : ∀ value, reply ≠ .outcome (.returned value) := by
    rintro value rfl
    cases hReply
  obtain ⟨i, rfl⟩ := course.failed_of_mem hCall hNoValue
  cases agrees with
  | completed agrees => cases agrees
  | aborted agrees status error same =>
    cases agrees with
    | failed ends same => exact ⟨status, _, error, same ▸ kind_of_stepEnd ends⟩

end Items

end Directive
