import Directive.Run.Program

/-!
# Ends of programs

* `Program.Ends`: a way for a program to end, with the calls that it makes on the way;
* `ends_bind`: programs one after another;
* `ofSteps_nil`, `ofSteps_cons`, `ofNode_chain`, `ofItem_chain`: what a chain that runs does next.
-/

namespace Directive.ChainRun

variable {run : ChainRun}

theorem advance_of_running (running : run.state = .running) (step : Int) :
    run.advance step = .ok { run with step := some step } := by
  rw [advance, require, if_pos running]
  rfl

theorem complete_of_running (running : run.state = .running) :
    run.complete = .ok { run with state := .completed } := by
  rw [complete, require, if_pos running]
  rfl

/-- The chain once a step has failed on its account. -/
def failed (run : ChainRun) (failure : StepFailure) : ChainRun :=
  { run with state := .aborted, error := some failure.fault, nested := failure.nested }

theorem failWith_of_running (running : run.state = .running) (failure : StepFailure) :
    run.failWith failure = .ok (run.failed failure) := by
  rw [failWith, abort, require, if_pos running]
  rfl

end Directive.ChainRun

namespace Directive.Program

variable {α β : Type}

/-- A way for a program to end: its calls with their replies, and what it ends with. -/
inductive Ends : Program α → List (Call × Reply) → α → Prop
  | done {a : α} : Ends (.done a) [] a
  | note {records : List Record} {next : Program α} {calls : List (Call × Reply)} {a : α}
      (rest : Ends next calls a) : Ends (.note records next) calls a
  | look {next : Bool → Program α} {calls : List (Call × Reply)} {a : α} (stop : Bool)
      (rest : Ends (next stop) calls a) : Ends (.look next) calls a
  | call {c : Call} {next : Reply → Program α} {calls : List (Call × Reply)} {a : α} (r : Reply)
      (rest : Ends (next r) calls a) : Ends (.call c next) ((c, r) :: calls) a

theorem ends_bind {p : Program α} {f : α → Program β} {calls : List (Call × Reply)} {b : β} :
    Ends (p.bind f) calls b ↔
      ∃ front a back, Ends p front a ∧ Ends (f a) back b ∧ calls = front ++ back := by
  constructor
  · intro h
    induction p generalizing calls with
    | done a => exact ⟨[], a, calls, .done, h, rfl⟩
    | note records next ih =>
      cases h with
      | note rest =>
        obtain ⟨front, a, back, hFront, hBack, rfl⟩ := ih rest
        exact ⟨front, a, back, .note hFront, hBack, rfl⟩
    | look next ih =>
      cases h with
      | look stop rest =>
        obtain ⟨front, a, back, hFront, hBack, rfl⟩ := ih stop rest
        exact ⟨front, a, back, .look stop hFront, hBack, rfl⟩
    | call c next ih =>
      cases h with
      | call r rest =>
        obtain ⟨front, a, back, hFront, hBack, rfl⟩ := ih r rest
        exact ⟨(c, r) :: front, a, back, .call r hFront, hBack, rfl⟩
  · rintro ⟨front, a, back, hFront, hBack, rfl⟩
    induction hFront with
    | done => exact hBack
    | note _ ih => exact .note (ih hBack)
    | look stop _ ih => exact .look stop (ih hBack)
    | call r _ ih => exact .call r (ih hBack)

/-- How a task goes on after another one, unless that one ends the run. -/
theorem ends_task_bind {t : Task α} {f : α → Task β} {calls : List (Call × Reply)}
    {b : Except Escape β} :
    Ends (t >>= f : Task β) calls b ↔
      (∃ front a back, Ends t front (.ok a) ∧ Ends (f a) back b ∧ calls = front ++ back) ∨
      ∃ e, Ends t calls (.error e) ∧ b = .error e := by
  change Ends (Program.bind t (ExceptT.bindCont f)) calls b ↔ _
  rw [ends_bind]
  constructor
  · rintro ⟨front, a, back, hFront, hBack, rfl⟩
    cases a with
    | ok a => exact .inl ⟨front, a, back, hFront, hBack, rfl⟩
    | error e =>
      cases hBack
      exact .inr ⟨e, by rwa [List.append_nil], rfl⟩
  · rintro (⟨front, a, back, hFront, hBack, rfl⟩ | ⟨e, hError, rfl⟩)
    · exact ⟨front, .ok a, back, hFront, hBack, rfl⟩
    · exact ⟨calls, .error e, [], hError, .done, by rw [List.append_nil]⟩

theorem ends_pure {a b : α} {calls : List (Call × Reply)}
    (h : Ends (pure a : Task α) calls (.ok b)) : calls = [] ∧ a = b := by
  cases h
  exact ⟨rfl, rfl⟩

variable (r : Resolver)

theorem perform_eq (i : Invocation) (table : SlotTable) (index : Option Nat) :
    perform r i table index =
      match i.resolveInput r table (index.getD 0) with
      | .error fault => .done (.ok (.fault fault))
      | .ok (input, source) =>
        .note (boundRecords source ++ [.dispatching i])
          (.call (i.call input) fun reply => .done (.ok (stepEnd i index reply))) := by
  unfold perform
  rcases i.resolveInput r table (index.getD 0) with fault | ⟨input, source⟩ <;> rfl

theorem ends_perform {i : Invocation} {table : SlotTable} {index : Option Nat}
    {calls : List (Call × Reply)} {ended : StepEnd}
    (h : Ends (perform r i table index) calls (.ok ended)) :
    (∃ fault, i.resolveInput r table (index.getD 0) = .error fault ∧ calls = [] ∧
      ended = .fault fault) ∨
    ∃ input source reply, i.resolveInput r table (index.getD 0) = .ok (input, source) ∧
      calls = [(i.call input, reply)] ∧ ended = stepEnd i index reply := by
  rw [perform_eq] at h
  rcases hInput : i.resolveInput r table (index.getD 0) with fault | ⟨input, source⟩
  · rw [hInput] at h
    cases h
    exact .inl ⟨fault, rfl, rfl, rfl⟩
  · rw [hInput] at h
    cases h with
    | note rest =>
      cases rest with
      | call reply rest =>
        cases rest
        exact .inr ⟨input, source, reply, rfl, rfl, rfl⟩

/-- A chain that has started. -/
def started (slot : Option String) (line column : Int) (steps : List Node) : ChainRun :=
  { node := .chain slot line column steps, state := .running }

/-- How a chain goes on after a step. -/
def afterStep (index : Nat) (step : Node) (steps : List Node) (run : ChainRun) :
    StepEnd → Task (Option ChainRun)
  | .result (.ok value) => ofSteps r (index + 1) steps (run.fill index step value)
  | .result (.error failure) =>
    .note [.chainAborted run.node.line index failure.fault.message]
      (.done (.ok (some (run.failed failure))))
  | .interrupted =>
    .note [.chainAborted run.node.line index (step.stopped (some index)).message] (.done (.ok none))

theorem ofSteps_nil {run : ChainRun} (running : run.state = .running) (index : Nat) :
    ofSteps r index [] run =
      .note [.chainCompleted run.node.line]
        (.done (.ok (some { run with state := .completed }))) := by
  rw [ofSteps, ChainRun.complete_of_running running]
  rfl

theorem ofSteps_cons {run : ChainRun} (running : run.state = .running) (index : Nat) (step : Node)
    (steps : List Node) :
    ofSteps r index (step :: steps) run = .look fun stop =>
      if stop then
        afterStep r index step steps { run with step := some (index : Int) }
          (.fault (step.stopped (some index)))
      else (ofNode r run.table (some index) step >>=
        afterStep r index step steps { run with step := some (index : Int) } : Task _) := by
  have hFail := @ChainRun.failWith_of_running { run with step := some (index : Int) } running
  rw [ofSteps, ChainRun.advance_of_running running]
  refine congrArg Program.look (funext fun stop => ?_)
  cases stop with
  | true =>
    change (transition (ChainRun.failWith _ _) >>= _ : Task _) = _
    rw [hFail]
    rfl
  | false =>
    refine congrArg (fun k => Program.bind (ofNode r run.table (some index) step)
      (ExceptT.bindCont k)) (funext fun ended => ?_)
    rcases ended with (failure | value) | _
    · change (transition (ChainRun.failWith _ _) >>= _ : Task _) = _
      rw [hFail]
      rfl
    · rfl
    · change (transition (ChainRun.failWith _ _) >>= _ : Task _) = _
      rw [hFail]
      rfl

theorem ofNode_chain (table : SlotTable) (index : Option Nat) (slot : Option String)
    (line column : Int) (steps : List Node) :
    ofNode r table index (.chain slot line column steps) =
      .note [.chainStarted line steps.length]
        (ofSteps r 0 steps (started slot line column steps) >>= fun
          | some run => pure (.result run.nestedResult)
          | none => pure .interrupted : Task StepEnd) := by
  rw [ofNode]
  rfl

theorem ofItem_chain (position : Nat) (slot : Option String) (line column : Int)
    (steps : List Node) :
    ofItem r position (.chain slot line column steps) =
      .note [.chainStarted line steps.length]
        (ofSteps r 0 steps (started slot line column steps) >>= fun
          | some run => pure (run.report position).1
          | none => throw calledOff : Task ItemReport) := by
  rw [ofItem]
  rfl

/-- How an item that is one command goes on after it. -/
def afterCommand (position : Nat) (i : Invocation) : StepEnd → Task ItemReport
  | .result (.ok value) => pure (.completed position (.invocation i) value)
  | .result (.error failure) =>
    .note [.itemFailed i failure.fault.message]
      (.done (.ok (.aborted position (.invocation i) failure.fault)))
  | .interrupted => throw calledOff

theorem ofItem_invocation (position : Nat) (i : Invocation) :
    ofItem r position (.invocation i) = .look fun stop =>
      if stop then afterCommand position i (.fault ((Node.invocation i).stopped none))
      else (perform r i .empty none >>= afterCommand position i : Task _) := by
  refine congrArg Program.look (funext fun stop => ?_)
  cases stop with
  | true => rfl
  | false =>
    refine congrArg (fun k => Program.bind (perform r i .empty none) (ExceptT.bindCont k))
      (funext fun ended => ?_)
    rcases ended with (failure | value) | _ <;> rfl

end Directive.Program
