import Mathlib.Data.List.Forall2
import Directive.Proofs.Run.Plan
import Directive.Proofs.Run.Trace

/-!
# Items follow their plans

* `Fills`: the slots of a chain hold the values that the plan says;
* `Agrees`: how a step ends after the calls that it made;
* `course_of_ofNode`, `course_of_ofSteps`: the calls of a step, and of the steps of a chain;
* `course_of_ofItem`: the calls of an item follow its plan, and its report tells how they ended.
-/

namespace Directive

/-- The faults that come from the run and not from a handler. -/
def Fault.IsOwn (f : Fault) : Prop :=
  (∃ command place, f = .cancelledAt command .stopped place) ∨
    ∃ phrase labels place, f = ⟨.unresolved phrase labels, place⟩

theorem Node.isOwn_stopped (n : Node) (step : Option Nat) : (n.stopped step).IsOwn :=
  .inl ⟨_, _, rfl⟩

/-- A slot that a step has filled. -/
def Outlet.Holds (values : List Value) (o : Outlet) (s : Slot) : Prop :=
  s.label = o.label ∧ s.command = o.command ∧ o.source.value? values = some s.value

/-- The slots of a chain that has come to step `index`. -/
structure Fills (values : List Value) (before : List Outlet) (table : SlotTable) (index : Nat) :
    Prop where
  slots : List.Forall₂ (Outlet.Holds values) before table.slots
  past : ∀ s ∈ table.slots, s.step < index

theorem getLast?_of_forall₂ {α β : Type} {R : α → β → Prop} {as : List α} {bs : List β}
    (h : List.Forall₂ R as bs) :
    (as.getLast? = none ∧ bs.getLast? = none) ∨
      ∃ a b, as.getLast? = some a ∧ bs.getLast? = some b ∧ R a b := by
  rw [← List.forall₂_reverse_iff] at h
  rw [← List.head?_reverse, ← List.head?_reverse]
  generalize as.reverse = as' at h ⊢
  generalize bs.reverse = bs' at h ⊢
  cases h with
  | nil => exact .inl ⟨rfl, rfl⟩
  | cons first _ => exact .inr ⟨_, _, rfl, rfl, first⟩

namespace Fills

variable {r : Resolver} {values : List Value} {before : List Outlet} {table : SlotTable}
  {index : Nat}

theorem empty (values : List Value) (index : Nat) : Fills values [] .empty index :=
  ⟨.nil, by simp [SlotTable.empty]⟩

theorem fill (h : Fills values before table index) {o : Outlet} {s : Slot} {more : List Value}
    (holds : o.Holds (values ++ more) s) (hStep : s.step = index) :
    Fills (values ++ more) (before ++ [o]) (table.store s) (index + 1) := by
  constructor
  · rw [SlotTable.slots_store]
    refine List.rel_append (h.slots.imp fun _ _ hHolds => ?_) (.cons holds .nil)
    exact ⟨hHolds.1, hHolds.2.1, Source.value?_append hHolds.2.2 more⟩
  · intro slot hSlot
    rw [SlotTable.slots_store, List.mem_append, List.mem_singleton] at hSlot
    rcases hSlot with hSlot | rfl
    · have := h.past slot hSlot
      omega
    · omega

/-- What a reference is resolved to is what the plan says. -/
theorem resolveInput (h : Fills values before table index) (i : Invocation) :
    (∃ fault, i.resolveInput r table index = .error fault ∧ fault.IsOwn) ∨
      ∃ input source, i.resolveInput r table index = .ok (input, source) ∧
        (i.source r before).value? values = some input := by
  unfold Invocation.resolveInput Invocation.source
  rcases i.input with _ | parts | phrase
  · exact .inr ⟨_, _, rfl, rfl⟩
  · exact .inr ⟨_, _, rfl, rfl⟩
  · have hBefore : table.before index = table.slots :=
      List.filter_eq_self.mpr fun s hs => by simpa using h.past s hs
    have hCandidates := getLast?_of_forall₂ (List.rel_filter (p := fun o : Outlet =>
        r.means (Resolver.wordsOf phrase) (Resolver.wordsOf o.label) o.command)
        (q := r.matchesSlot phrase) (fun o s hHolds => by
          simp only [Resolver.matchesSlot, hHolds.1, hHolds.2.1]) h.slots)
    dsimp only
    rw [Resolver.resolve, Resolver.candidates, hBefore]
    rcases hCandidates with ⟨hNone, hNone'⟩ | ⟨o, s, hLast, hLast', hHolds⟩
    · rw [hNone']
      exact .inl ⟨_, rfl, .inr ⟨_, _, _, rfl⟩⟩
    · rw [hLast', hLast]
      exact .inr ⟨_, _, rfl, hHolds.2.2⟩

/-- The value of a chain is that of its last step. -/
theorem result {run : ChainRun} (h : Fills values before run.table index) :
    ((before.getLast?.map Outlet.source).getD .nothing).value? values = some run.result := by
  rw [ChainRun.result, SlotTable.last?]
  rcases getLast?_of_forall₂ h.slots with ⟨hNone, hNone'⟩ | ⟨o, s, hLast, hLast', hHolds⟩
  · rw [hNone, hNone']
    rfl
  · rw [hLast, hLast']
    exact hHolds.2.2

end Fills

namespace Program

/-- How a step ends after calls that have ended in some way. -/
inductive Agrees : Ending → Source → StepEnd → Prop
  | complete {values : List Value} {s : Source} {v : Value} (result : s.value? values = some v) :
      Agrees (.complete values) s (.result (.ok v))
  | broken {s : Source} {failure : StepFailure} (own : failure.fault.IsOwn) :
      Agrees .broken s (.result (.error failure))
  | failed {i : Invocation} {reply : Reply} {index : Option Nat} {s : Source}
      {cause failure : StepFailure} (ends : stepEnd i index reply = .result (.error cause))
      (same : failure.fault = cause.fault) : Agrees (.failed i reply) s (.result (.error failure))
  | interrupted {i : Invocation} {s : Source} : Agrees (.failed i .interrupted) s .interrupted

/-- What is left of a chain after calls that have ended in some way. -/
inductive ChainAgrees (node : Node) (e : Ending) (s : Source) :
    Except Escape (Option ChainRun) → Prop
  | completed {run : ChainRun} (agrees : Agrees e s (.result (.ok run.result)))
      (state : run.state = .completed) (error : run.error = none) (same : run.node = node) :
      ChainAgrees node e s (.ok (some run))
  | aborted {run : ChainRun} {failure : StepFailure}
      (agrees : Agrees e s (.result (.error failure))) (state : run.state = .aborted)
      (error : run.error = some failure.fault) (same : run.node = node) :
      ChainAgrees node e s (.ok (some run))
  | interrupted (agrees : Agrees e s .interrupted) : ChainAgrees node e s (.ok none)

theorem Agrees.of_failure {e : Ending} {s s' : Source} {failure failure' : StepFailure}
    (h : Agrees e s (.result (.error failure))) (same : failure'.fault = failure.fault) :
    Agrees e s' (.result (.error failure')) := by
  cases h with
  | broken own => exact .broken (same ▸ own)
  | failed ends hSame => exact .failed ends (same.trans hSame)

variable {r : Resolver} {values : List Value} {before : List Outlet}
  {calls : List (Call × Reply)}

theorem course_of_perform {table : SlotTable} {index : Option Nat} {i : Invocation}
    {res : Except Escape StepEnd} (fills : Fills values before table (index.getD 0))
    (h : Ends (perform r i table index) calls res) :
    ∃ e ended, res = .ok ended ∧ Course [⟨i, i.source r before⟩] values calls e ∧
      Agrees e (.returned values.length) ended := by
  rw [perform_eq] at h
  rcases fills.resolveInput i with ⟨fault, hInput, own⟩ | ⟨input, source, hInput, given⟩
  · rw [hInput] at h
    cases h
    exact ⟨.broken, _, rfl, .broken, .broken own⟩
  · rw [hInput] at h
    cases h with
    | note rest =>
      cases rest with
      | call reply rest =>
        cases rest
        rcases reply with ((value | (f | f | reasons)) | seconds | _)
        · refine ⟨_, _, rfl, .returned given .complete, .complete ?_⟩
          rw [Source.value?, List.getElem?_append_right (Nat.le_refl _), Nat.sub_self]
          rfl
        · exact ⟨_, _, rfl, .failed given (by simp), .failed rfl rfl⟩
        · exact ⟨_, _, rfl, .failed given (by simp), .failed rfl rfl⟩
        · exact ⟨_, _, rfl, .failed given (by simp), .failed rfl rfl⟩
        · exact ⟨_, _, rfl, .failed given (by simp), .failed rfl rfl⟩
        · exact ⟨_, _, rfl, .failed given (by simp), .interrupted⟩

/-- After a step that failed there are no more calls. -/
theorem ends_afterStep_error {index : Nat} {step : Node} {steps : List Node} {run : ChainRun}
    {failure : StepFailure} {e : Ending} {s s' : Source} {res : Except Escape (Option ChainRun)}
    (agrees : Agrees e s (.result (.error failure)))
    (h : Ends (afterStep r index step steps run (.result (.error failure))) calls res) :
    calls = [] ∧ ChainAgrees run.node e s' res := by
  cases h with
  | note rest =>
    cases rest
    exact ⟨rfl, .aborted (agrees.of_failure rfl) rfl rfl rfl⟩

theorem ends_afterStep_interrupted {index : Nat} {step : Node} {steps : List Node} {run : ChainRun}
    {i : Invocation} {s : Source} {res : Except Escape (Option ChainRun)}
    (h : Ends (afterStep r index step steps run .interrupted) calls res) :
    calls = [] ∧ ChainAgrees run.node (.failed i .interrupted) s res := by
  cases h with
  | note rest =>
    cases rest
    exact ⟨rfl, .interrupted .interrupted⟩

mutual

theorem course_of_ofNode : ∀ (n : Node) {values : List Value} {before : List Outlet}
    {table : SlotTable} {index : Nat} {calls : List (Call × Reply)} {res : Except Escape StepEnd},
    Fills values before table index → Ends (ofNode r table (some index) n) calls res →
    ∃ e ended, res = .ok ended ∧ Course (n.plan r before values.length).leaves values calls e ∧
      Agrees e (n.plan r before values.length).result ended
  | .invocation i, _, _, _, _, _, _, fills, h => by
    rw [ofNode] at h
    exact course_of_perform fills h
  | .chain slot line column steps, values, before, table, index, calls, res, fills, h => by
    rw [ofNode_chain] at h
    cases h with
    | note rest =>
      rcases ends_task_bind.mp rest with ⟨front, a, back, hSteps, hBack, rfl⟩ | ⟨escape, hSteps, -⟩
      · obtain ⟨e, course, agrees⟩ :=
          course_of_ofSteps steps (Fills.empty values 0) rfl rfl hSteps
        generalize hRes : (Except.ok a : Except Escape (Option ChainRun)) = res' at agrees
        cases agrees with
        | @completed run agrees state error same =>
          cases hRes
          cases hBack
          refine ⟨e, _, rfl, by rwa [List.append_nil], ?_⟩
          rw [ChainRun.nestedResult, error]
          exact agrees
        | @aborted run failure agrees state error same =>
          cases hRes
          cases hBack
          refine ⟨e, _, rfl, by rwa [List.append_nil], ?_⟩
          rw [ChainRun.nestedResult, error]
          exact agrees.of_failure rfl
        | interrupted agrees =>
          cases hRes
          cases hBack
          exact ⟨e, _, rfl, by rwa [List.append_nil], agrees⟩
      · obtain ⟨e, -, agrees⟩ := course_of_ofSteps steps (Fills.empty values 0) rfl rfl hSteps
        cases agrees

theorem course_of_ofSteps : ∀ (steps : List Node) {values : List Value} {before : List Outlet}
    {run : ChainRun} {index : Nat} {calls : List (Call × Reply)}
    {res : Except Escape (Option ChainRun)},
    Fills values before run.table index → run.state = .running → run.error = none →
    Ends (ofSteps r index steps run) calls res →
    ∃ e, Course (Node.planSteps r before values.length steps).leaves values calls e ∧
      ChainAgrees run.node e (Node.planSteps r before values.length steps).result res
  | [], values, before, run, index, calls, res, fills, running, noError, h => by
    rw [ofSteps_nil r running] at h
    cases h with
    | note rest =>
      cases rest
      exact ⟨_, .complete, .completed (.complete fills.result) rfl noError rfl⟩
  | step :: steps, values, before, run, index, calls, res, fills, running, noError, h => by
    rw [ofSteps_cons r running] at h
    cases h with
    | look stop rest =>
      cases stop with
      | true =>
        change Ends (afterStep r index step steps _ (.fault _)) calls res at rest
        obtain ⟨rfl, agrees⟩ := ends_afterStep_error
          (Agrees.broken (s := .nothing) (step.isOwn_stopped (some index))) rest
        exact ⟨.broken, .broken, agrees⟩
      | false =>
        rcases ends_task_bind.mp rest with
          ⟨front, ended, back, hStep, hBack, rfl⟩ | ⟨escape, hStep, -⟩
        · obtain ⟨e, _, hEnded, course, agrees⟩ := course_of_ofNode step fills hStep
          cases hEnded
          rw [Node.planSteps]
          cases agrees with
          | @complete values' _ v result =>
            obtain ⟨new, rfl, hLength⟩ := course.values_of_complete
            have hFills : Fills (values ++ new) (before ++ [⟨step.label, step.command,
                (step.plan r before values.length).result⟩]) (run.fill index step v).table
                (index + 1) :=
              fills.fill ⟨rfl, rfl, result⟩ rfl
            obtain ⟨e, hRest, hAgrees⟩ := @course_of_ofSteps steps _ _
              (ChainRun.fill { run with step := some (index : Int) } index step v) _ _ _ hFills
              running noError hBack
            rw [List.length_append, hLength] at hRest hAgrees
            exact ⟨e, course.append hRest, hAgrees⟩
          | broken own =>
            obtain ⟨rfl, hAgrees⟩ := ends_afterStep_error (.broken (s := .nothing) own) hBack
            exact ⟨_, by simpa using course.extend (by simp), hAgrees⟩
          | failed ends same =>
            obtain ⟨rfl, hAgrees⟩ := ends_afterStep_error (.failed (s := .nothing) ends same) hBack
            exact ⟨_, by simpa using course.extend (by simp), hAgrees⟩
          | interrupted =>
            obtain ⟨rfl, hAgrees⟩ := ends_afterStep_interrupted hBack
            exact ⟨_, by simpa using course.extend (by simp), hAgrees⟩
        · obtain ⟨e, _, hEnded, -⟩ := course_of_ofNode step fills hStep
          cases hEnded

end

/-- What is reported on an item after calls that have ended in some way. -/
inductive ItemAgrees (position : Nat) (n : Node) (e : Ending) (s : Source) :
    Except Escape ItemReport → Prop
  | completed {report : ItemReport} (agrees : Agrees e s (.result (.ok report.result)))
      (status : report.status = .completed) (error : report.error = none)
      (same : report.position = position ∧ report.node = n) :
      ItemAgrees position n e s (.ok report)
  | aborted {report : ItemReport} {failure : StepFailure}
      (agrees : Agrees e s (.result (.error failure))) (status : report.status = .aborted)
      (error : report.error = some failure.fault)
      (same : report.position = position ∧ report.node = n) :
      ItemAgrees position n e s (.ok report)
  | interrupted (agrees : Agrees e s .interrupted) : ItemAgrees position n e s (.error calledOff)

theorem itemAgrees_afterCommand {position : Nat} {i : Invocation} {ended : StepEnd} {e : Ending}
    {s : Source} {res : Except Escape ItemReport} (agrees : Agrees e s ended)
    (h : Ends (afterCommand position i ended) calls res) :
    calls = [] ∧ ItemAgrees position (.invocation i) e s res := by
  rcases ended with (failure | value) | _
  · cases h with
    | note rest =>
      cases rest
      exact ⟨rfl, .aborted agrees rfl rfl ⟨rfl, rfl⟩⟩
  · cases h
    exact ⟨rfl, .completed agrees rfl rfl ⟨rfl, rfl⟩⟩
  · cases h
    exact ⟨rfl, .interrupted agrees⟩

theorem course_of_ofItem {position : Nat} {n : Node} {res : Except Escape ItemReport}
    (h : Ends (ofItem r position n) calls res) :
    ∃ e, Course (n.plan r [] 0).leaves [] calls e ∧
      ItemAgrees position n e (n.plan r [] 0).result res := by
  cases n with
  | invocation i =>
    rw [ofItem_invocation] at h
    cases h with
    | look stop rest =>
      cases stop with
      | true =>
        have own : Agrees .broken (Source.returned 0) (.fault ((Node.invocation i).stopped none)) :=
          .broken ((Node.invocation i).isOwn_stopped none)
        obtain ⟨rfl, agrees⟩ := itemAgrees_afterCommand own rest
        exact ⟨_, .broken, agrees⟩
      | false =>
        rcases ends_task_bind.mp rest with ⟨front, ended, back, hCall, hBack, rfl⟩ | ⟨_, hCall, -⟩
        · obtain ⟨e, _, hEnded, course, agrees⟩ := course_of_perform (Fills.empty [] 0) hCall
          cases hEnded
          obtain ⟨rfl, hAgrees⟩ := itemAgrees_afterCommand agrees hBack
          exact ⟨e, by rwa [List.append_nil], hAgrees⟩
        · obtain ⟨e, _, hEnded, -⟩ := course_of_perform (Fills.empty [] 0) hCall
          cases hEnded
  | chain slot line column steps =>
    rw [ofItem_chain] at h
    cases h with
    | note rest =>
      rcases ends_task_bind.mp rest with ⟨front, a, back, hSteps, hBack, rfl⟩ | ⟨_, hSteps, -⟩
      · obtain ⟨e, course, agrees⟩ := course_of_ofSteps steps (Fills.empty [] 0) rfl rfl hSteps
        refine ⟨e, ?_⟩
        generalize hRes : (Except.ok a : Except Escape (Option ChainRun)) = res' at agrees
        cases agrees with
        | completed agrees state error same =>
          cases hRes
          cases hBack
          refine ⟨by rwa [List.append_nil], .completed ?_ ?_ error ⟨rfl, same⟩⟩
          · simpa [ChainRun.report, ChainRun.release, state, ChainRun.result, Node.plan]
              using agrees
          · simp [ChainRun.report, ChainRun.release, state]
        | aborted agrees state error same =>
          cases hRes
          cases hBack
          refine ⟨by rwa [List.append_nil], .aborted agrees ?_ error ⟨rfl, same⟩⟩
          simp [ChainRun.report, ChainRun.release, state]
        | interrupted agrees =>
          cases hRes
          cases hBack
          exact ⟨by rwa [List.append_nil], .interrupted agrees⟩
      · obtain ⟨e, -, agrees⟩ := course_of_ofSteps steps (Fills.empty [] 0) rfl rfl hSteps
        cases agrees

end Program

end Directive
