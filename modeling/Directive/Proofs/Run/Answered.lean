import Directive.Proofs.Run.Calls

/-!
# Programs with fixed answers

If what a call is answered with depends on the call only, and nothing stops a run, a program has one
way to go.

* `Program.answered`: what the program comes to, and the calls that it makes;
* `Node.reportIf`, `Node.callsIf`: the report on an item, and its calls;
* `answered_ofItem`: every item comes to its report;
* `callTrace_reportIf`: the report tells how the calls went.
-/

namespace Directive

def ItemReport.movedTo (report : ItemReport) (position : Nat) : ItemReport :=
  { report with position }

namespace Program

variable {α β : Type} (answer : Call → Outcome)

def answered : Program α → α × List Call
  | .done a => (a, [])
  | .note _ next => answered next
  | .look next => answered (next false)
  | .call c next =>
    ((answered (next (.outcome (answer c)))).1,
      c :: (answered (next (.outcome (answer c)))).2)

/-- Calls with their answers. -/
def withAnswers (calls : List Call) : List (Call × Outcome) := calls.map fun c => (c, answer c)

theorem ends_answered (p : Program α) :
    Ends p ((withAnswers answer (p.answered answer).2).map replied) (p.answered answer).1 := by
  induction p with
  | done a => exact .done
  | note records next ih => exact .note ih
  | look next ih => exact .look false (ih false)
  | call c next ih => exact .call _ (ih _)

theorem answered_bind (p : Program α) (f : α → Program β) :
    (p.bind f).answered answer =
      (((f (p.answered answer).1).answered answer).1,
        (p.answered answer).2 ++ ((f (p.answered answer).1).answered answer).2) := by
  induction p with
  | done a => rfl
  | note records next ih => exact ih
  | look next ih => exact ih false
  | call c next ih => rw [bind, answered, ih, answered, List.cons_append]

theorem answered_task_bind {t : Task α} {a : α} {calls : List Call}
    (h : answered answer t = (.ok a, calls)) (f : α → Task β) :
    answered answer (t >>= f : Task β) =
      ((answered answer (f a)).1, calls ++ (answered answer (f a)).2) := by
  change answered answer (Program.bind t (ExceptT.bindCont f)) = _
  rw [answered_bind, h]
  rfl

theorem answered_task_bind_error {t : Task α} {e : Escape} {calls : List Call}
    (h : answered answer t = (.error e, calls)) (f : α → Task β) :
    answered answer (t >>= f : Task β) = (.error e, calls) := by
  change answered answer (Program.bind t (ExceptT.bindCont f)) = _
  rw [answered_bind, h]
  exact congrArg (Prod.mk _) (List.append_nil calls)

/-- Where an item stands shows in its report only. -/
theorem answered_afterCommand (position : Nat) (i : Invocation) (ended : StepEnd) :
    answered answer (afterCommand position i ended) =
      ((answered answer (afterCommand 0 i ended)).1.map (ItemReport.movedTo · position),
        (answered answer (afterCommand 0 i ended)).2) := by
  rcases ended with (failure | value) | _ <;> rfl

theorem answered_ofItem_position (r : Resolver) (position : Nat) (n : Node) :
    answered answer (ofItem r position n) =
      ((answered answer (ofItem r 0 n)).1.map (ItemReport.movedTo · position),
        (answered answer (ofItem r 0 n)).2) := by
  cases n with
  | invocation i =>
    simp only [ofItem_invocation, answered, Bool.false_eq_true, if_false]
    rcases h : answered answer (perform r i .empty none) with ⟨e | ended, calls⟩
    · rw [answered_task_bind_error answer h, answered_task_bind_error answer h]
      rfl
    · rw [answered_task_bind answer h, answered_task_bind answer h, answered_afterCommand]
  | chain slot line column steps =>
    simp only [ofItem_chain, answered]
    rcases h : answered answer (ofSteps r 0 steps (started slot line column steps)) with
      ⟨e | _ | run, calls⟩
    · rw [answered_task_bind_error answer h, answered_task_bind_error answer h]
      rfl
    · rw [answered_task_bind answer h, answered_task_bind answer h]
      rfl
    · rw [answered_task_bind answer h, answered_task_bind answer h]
      rfl

end Program

open Program (answered withAnswers ofItem)

namespace Node

variable (r : Resolver) (answer : Call → Outcome)

/-- The report on an item that stands first. -/
def reportIf (n : Node) : ItemReport :=
  match (answered answer (ofItem r 0 n)).1 with
  | .ok report => report
  | .error _ => .skipped 0 n

def callsIf (n : Node) : List Call := (answered answer (ofItem r 0 n)).2

theorem answered_first (n : Node) :
    answered answer (ofItem r 0 n) = (.ok (n.reportIf r answer), n.callsIf r answer) ∧
      CallTrace (n.plan r [] 0).leaves (withAnswers answer (n.callsIf r answer))
        (n.reportIf r answer) := by
  obtain ⟨e, course, agrees⟩ :=
    Program.course_of_ofItem (Program.ends_answered answer (ofItem r 0 n))
  rcases h : answered answer (ofItem r 0 n) with ⟨escape | report, calls⟩
  · -- only a call that is called off ends the item without a report
    rw [h] at course agrees
    cases agrees with
    | interrupted agrees =>
      cases agrees with
      | interrupted =>
        obtain ⟨_, _, _, _, _, hReply, _⟩ := course.explains
        cases hReply
  · rw [h] at course agrees
    have hReport : n.reportIf r answer = report := by rw [reportIf, h]
    have hCalls : n.callsIf r answer = calls := by rw [callsIf, h]
    rw [hReport, hCalls]
    exact ⟨rfl, callTrace_of_course course agrees⟩

theorem answered_ofItem (position : Nat) (n : Node) :
    answered answer (ofItem r position n) =
      (.ok ((n.reportIf r answer).movedTo position), n.callsIf r answer) := by
  rw [Program.answered_ofItem_position, (n.answered_first r answer).1]
  rfl

theorem callTrace_reportIf (n : Node) :
    CallTrace (n.plan r [] 0).leaves (withAnswers answer (n.callsIf r answer))
      (n.reportIf r answer) :=
  (n.answered_first r answer).2

end Node

end Directive
