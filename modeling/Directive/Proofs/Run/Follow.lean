import Directive.Proofs.Run.Trace
import Directive.Run.Direct

/-!
# Direct runs follow the programs of their items

* `Direct.follow`: a program in a direct run, where each call is answered before the run goes on;
* `followTask_ofItem`: an item of a direct run is its program followed.
-/

namespace Directive.Direct

open Program (Ends StepEnd ofNode ofSteps ofItem)

variable {σ α β : Type} (d : Direct σ)

/-- A program in a direct run. A handler that gives up ends the whole run. -/
def follow (item : Nat) : Program α → Run σ α
  | .done a => return a
  | .note records next => do
    note records
    follow item next
  | .look next => do follow item (next (← d.look))
  | .call call next => do
    match ← d.enter item call with
    | .threw (.cancelled reasons) => throw (.interrupted (joinedMessage reasons))
    | o => follow item (next (.outcome o))

def followTask (item : Nat) (t : Task α) : Run σ α := do
  match ← d.follow item t with
  | .ok a => return a
  | .error e => throw e

theorem follow_bind (item : Nat) (p : Program α) (f : α → Program β) :
    d.follow item (p.bind f) = d.follow item p >>= fun a => d.follow item (f a) := by
  induction p with
  | done a => simp [Program.bind, follow]
  | note records next ih => simp [Program.bind, follow, ih]
  | look next ih => simp [Program.bind, follow, ih]
  | call call next ih =>
    simp only [Program.bind, follow, bind_assoc]
    refine congrArg (d.enter item call >>= ·) (funext fun o => ?_)
    rcases o with value | (f | f | reasons)
    · exact ih _
    · exact ih _
    · exact ih _
    · rfl

theorem followTask_bind (item : Nat) (t : Task α) (f : α → Task β) :
    d.followTask item (t >>= f) = d.followTask item t >>= fun a => d.followTask item (f a) := by
  change d.follow item (Program.bind t (ExceptT.bindCont f)) >>= _ = _
  rw [follow_bind, followTask, bind_assoc, bind_assoc]
  refine congrArg (d.follow item t >>= ·) (funext fun a => ?_)
  cases a with
  | ok a => simp [ExceptT.bindCont, followTask]
  | error e => rfl

theorem followTask_note (item : Nat) (records : List Record) (t : Task α) :
    d.followTask item (.note records t) = (do note records; d.followTask item t) := by
  simp [followTask, follow]

theorem followTask_look (item : Nat) (f : Bool → Task α) :
    d.followTask item (.look f) = (do d.followTask item (f (← d.look))) := by
  simp [followTask, follow]

theorem followTask_perform (item : Nat) (i : Invocation) (table : SlotTable) (index : Option Nat) :
    d.followTask item (Program.perform d.resolver i table index) =
      StepEnd.result <$> d.perform item i table index := by
  rw [Program.perform_eq, perform]
  rcases i.resolveInput d.resolver table (index.getD 0) with fault | ⟨input, source⟩
  · rfl
  · dsimp only
    rw [followTask_note, map_bind]
    refine congrArg (note _ >>= ·) (funext fun _ => ?_)
    rw [followTask, follow, bind_assoc, map_bind]
    refine congrArg (d.enter item (i.call input) >>= ·) (funext fun o => ?_)
    rcases o with value | (f | f | reasons) <;> rfl

theorem transition_ok (a : α) : (transition (.ok a) : Run σ α) = pure a := rfl

/-- How a chain of a direct run goes on after a step. -/
def afterStep (item index : Nat) (step : Node) (steps : List Node) (run : ChainRun) :
    StepResult → Run σ ChainRun
  | .ok value => d.runSteps item (index + 1) steps (run.fill index step value)
  | .error failure => do
    note [.chainAborted run.node.line index failure.fault.message]
    return run.failed failure

theorem runSteps_cons {run : ChainRun} (running : run.state = .running) (item index : Nat)
    (step : Node) (steps : List Node) :
    d.runSteps item index (step :: steps) run = (do
      if ← d.look then
        d.afterStep item index step steps { run with step := some (index : Int) }
          (.error ⟨step.stopped (some index), []⟩)
      else
        d.afterStep item index step steps { run with step := some (index : Int) }
          (← d.runNode item run.table (some index) step)) := by
  have hFail := @ChainRun.failWith_of_running { run with step := some (index : Int) } running
  rw [runSteps, ChainRun.advance_of_running running, transition_ok, pure_bind]
  refine congrArg (d.look >>= ·) (funext fun stop => ?_)
  cases stop with
  | true =>
    change (transition (ChainRun.failWith _ _) >>= _ : Run σ _) = _
    rw [hFail]
    rfl
  | false =>
    refine congrArg (d.runNode item run.table (some index) step >>= ·) (funext fun result => ?_)
    rcases result with failure | value
    · change (transition (ChainRun.failWith _ _) >>= _ : Run σ _) = _
      rw [hFail]
      rfl
    · rfl

theorem runSteps_nil {run : ChainRun} (running : run.state = .running) (item index : Nat) :
    d.runSteps item index [] run = (do
      note [.chainCompleted run.node.line]
      return { run with state := .completed }) := by
  rw [runSteps, ChainRun.complete_of_running running]
  rfl

theorem runNode_chain (item : Nat) (table : SlotTable) (index : Option Nat) (slot : Option String)
    (line column : Int) (steps : List Node) :
    d.runNode item table index (.chain slot line column steps) = (do
      note [.chainStarted line steps.length]
      return (← d.runSteps item 0 steps
        (Program.started slot line column steps)).nestedResult) := by
  rw [runNode]
  rfl

mutual

theorem followTask_ofNode (item : Nat) : ∀ (n : Node) (table : SlotTable) (index : Option Nat),
    d.followTask item (ofNode d.resolver table index n) =
      StepEnd.result <$> d.runNode item table index n
  | .invocation i, table, index => by
    rw [ofNode, runNode, followTask_perform]
  | .chain slot line column steps, table, index => by
    rw [Program.ofNode_chain, runNode_chain, followTask_note, map_bind]
    refine congrArg (note _ >>= ·) (funext fun _ => ?_)
    rw [followTask_bind, followTask_ofSteps item steps _ 0 rfl, bind_map_left, map_bind]
    rfl

theorem followTask_ofSteps (item : Nat) : ∀ (steps : List Node) (run : ChainRun) (index : Nat),
    run.state = .running →
    d.followTask item (ofSteps d.resolver index steps run) =
      some <$> d.runSteps item index steps run
  | [], run, index, running => by
    rw [Program.ofSteps_nil _ running, runSteps_nil d running, followTask_note, map_bind]
    rfl
  | step :: steps, run, index, running => by
    have hAfter (result : StepResult) :
        d.followTask item (Program.afterStep d.resolver index step steps
          { run with step := some (index : Int) } (.result result)) =
          some <$> d.afterStep item index step steps { run with step := some (index : Int) }
            result := by
      rcases result with failure | value
      · rw [afterStep, map_bind]
        exact followTask_note d item _ _
      · exact followTask_ofSteps item steps _ (index + 1) running
    rw [Program.ofSteps_cons _ running, runSteps_cons d running, followTask_look, map_bind]
    refine congrArg (d.look >>= ·) (funext fun stop => ?_)
    cases stop with
    | true => exact hAfter (.error ⟨step.stopped (some index), []⟩)
    | false =>
      change d.followTask item (_ >>= _ : Task _) = some <$> (_ >>= _)
      rw [followTask_bind, followTask_ofNode item step, bind_map_left, map_bind]
      exact congrArg (d.runNode item run.table (some index) step >>= ·) (funext hAfter)

end

theorem followTask_ofItem (position : Nat) (n : Node) :
    d.followTask position (ofItem d.resolver position n) = d.runItem position n := by
  cases n with
  | invocation i =>
    have hAfter (result : StepResult) :
        d.followTask position (Program.afterCommand position i (.result result)) =
          (match result with
          | .ok value => return .completed position (.invocation i) value
          | .error failure => do
            note [.itemFailed i failure.fault.message]
            return .aborted position (.invocation i) failure.fault) := by
      rcases result with failure | value
      · exact followTask_note d position _ _
      · rfl
    rw [Program.ofItem_invocation, followTask_look, runItem, runInvocation]
    refine congrArg (d.look >>= ·) (funext fun stop => ?_)
    cases stop with
    | true => exact hAfter (.error ⟨(Node.invocation i).stopped none, []⟩)
    | false =>
      change d.followTask position (_ >>= _ : Task _) = _
      rw [followTask_bind, followTask_perform, bind_map_left]
      exact congrArg (d.perform position i .empty none >>= ·) (funext hAfter)
  | chain slot line column steps =>
    rw [Program.ofItem_chain, followTask_note, followTask_bind,
      followTask_ofSteps _ _ steps _ 0 rfl, bind_map_left]
    rfl

end Directive.Direct
