import Mathlib.Data.List.DropRight
import Directive.Run.Report

/-!
# The life of a chain

What may be tried on a chain, in any order, and what becomes of the chain.

* `ChainAct`, `ChainRun.attempt`: an act is done, or it is refused since it needs another state;
* `ChainRun.attempt_cases`: which of both, and what is done;
* `ChainRun.afterAll`, `ChainRun.accepted`: a chain after some acts, and which of them were done;
* `Lived`: a chain starts, goes from step to step, and completes or aborts;
* `ChainRun.Lifecycle`: what holds of a chain after any acts.
-/

namespace Directive

inductive ChainAct
  | start
  | advance (step : Int)
  | complete
  | abort (fault : Fault)
  | store (slot : Slot)
  | release
  | report (position : Nat)

namespace ChainAct

/-- The state that an act needs, unless it may be done in any. -/
def expected : ChainAct → Option ChainState
  | .start => some .pending
  | .advance _ | .complete | .abort _ => some .running
  | .store _ | .release | .report _ => none

def step? : ChainAct → Option Int
  | .advance step => some step
  | _ => none

def slot? : ChainAct → Option Slot
  | .store slot => some slot
  | _ => none

/-- Whether an act takes the slots out of the chain. -/
def empties : ChainAct → Bool
  | .release | .report _ => true
  | _ => false

/-- Whether an act is one of those that need a state. -/
def changes (act : ChainAct) : Bool := act.expected.isSome

/-- An act that needs a state leaves the slots alone. -/
theorem keepsSlots_of_changes {act : ChainAct} (h : act.changes = true) :
    act.empties = false ∧ act.slot? = none := by
  cases act with
  | start | advance | complete | abort => exact ⟨rfl, rfl⟩
  | store | release | report => cases h

end ChainAct

namespace ChainRun

variable {run next : ChainRun} {act : ChainAct}

def attempt (run : ChainRun) : ChainAct → Except BadTransition ChainRun
  | .start => run.start
  | .advance step => run.advance step
  | .complete => run.complete
  | .abort fault => run.abort fault
  | .store slot => .ok (run.store slot)
  | .release => .ok run.release.2
  | .report position => .ok (run.report position).2

/-- The chain with an act done, as if no state were needed for it. -/
def apply (run : ChainRun) : ChainAct → ChainRun
  | .start => { run with state := .running }
  | .advance step => { run with step := some step }
  | .complete => { run with state := .completed }
  | .abort fault => { run with state := .aborted, error := some fault }
  | .store slot => run.store slot
  | .release | .report _ => { run with table := .empty }

/-- Whether the chain has the state that an act needs. -/
def Allows (run : ChainRun) (act : ChainAct) : Prop :=
  ∀ expected, act.expected = some expected → run.state = expected

theorem attempt_eq (run : ChainRun) (act : ChainAct) :
    run.attempt act =
      (act.expected.elim (.ok ()) run.require >>= fun _ => .ok (run.apply act)) := by
  cases act <;> rfl

theorem attempt_of_allows (allows : run.Allows act) : run.attempt act = .ok (run.apply act) := by
  rw [attempt_eq]
  cases hExpected : act.expected with
  | none => rfl
  | some expected =>
    rw [Option.elim, require, if_pos (allows expected hExpected)]
    rfl

theorem attempt_of_other {expected : ChainState} (hExpected : act.expected = some expected)
    (other : run.state ≠ expected) : run.attempt act = .error ⟨run.state, expected⟩ := by
  rw [attempt_eq, hExpected, Option.elim, require, if_neg other]
  rfl

/-- An act is done in the state that it needs, and refused in any other. -/
theorem attempt_cases (run : ChainRun) (act : ChainAct) :
    (run.Allows act ∧ run.attempt act = .ok (run.apply act)) ∨
      ∃ expected, act.expected = some expected ∧ run.state ≠ expected ∧
        run.attempt act = .error ⟨run.state, expected⟩ := by
  by_cases allows : run.Allows act
  · exact .inl ⟨allows, attempt_of_allows allows⟩
  · obtain ⟨expected, hExpected, other⟩ : ∃ expected, act.expected = some expected ∧
        run.state ≠ expected := by
      simpa [Allows] using allows
    exact .inr ⟨expected, hExpected, other, attempt_of_other hExpected other⟩

/-! ### Acts one after another -/

/-- The chain after an act was tried. An act that is refused leaves the chain as it is. -/
def after (run : ChainRun) (act : ChainAct) : ChainRun :=
  match run.attempt act with
  | .ok next => next
  | .error _ => run

def afterAll (run : ChainRun) (acts : List ChainAct) : ChainRun := acts.foldl after run

/-- Those of some acts that are done. -/
def accepted (run : ChainRun) : List ChainAct → List ChainAct
  | [] => []
  | act :: acts =>
    match run.attempt act with
    | .ok next => act :: next.accepted acts
    | .error _ => run.accepted acts

theorem after_of_ok (h : run.attempt act = .ok next) : run.after act = next := by
  rw [after, h]

theorem after_of_error {b : BadTransition} (h : run.attempt act = .error b) :
    run.after act = run := by
  rw [after, h]

theorem afterAll_concat (run : ChainRun) (acts : List ChainAct) (act : ChainAct) :
    run.afterAll (acts ++ [act]) = (run.afterAll acts).after act :=
  List.foldl_concat after run act acts

theorem accepted_append (run : ChainRun) (acts more : List ChainAct) :
    run.accepted (acts ++ more) = run.accepted acts ++ (run.afterAll acts).accepted more := by
  induction acts generalizing run with
  | nil => rfl
  | cons act acts ih =>
    rw [List.cons_append, accepted, accepted]
    cases hAttempt : run.attempt act with
    | ok next =>
      dsimp only
      rw [ih, List.cons_append, afterAll, afterAll, List.foldl_cons, after_of_ok hAttempt]
    | error b =>
      dsimp only
      rw [ih, afterAll, afterAll, List.foldl_cons, after_of_error hAttempt]

/-- What holds of a chain at first, and of one more act each time that it is done, holds of the acts
that are done. -/
theorem accepted_induction {P : List ChainAct → ChainRun → Prop} (first : P [] run)
    (step : ∀ done run act, P done run → run.Allows act → P (done ++ [act]) (run.apply act))
    (acts : List ChainAct) : P (run.accepted acts) (run.afterAll acts) := by
  induction acts using List.reverseRecOn with
  | nil => exact first
  | append_singleton acts act ih =>
    rw [afterAll_concat, accepted_append, accepted]
    obtain ⟨allows, hAttempt⟩ | ⟨_, _, _, hAttempt⟩ := (run.afterAll acts).attempt_cases act
    · rw [hAttempt, after_of_ok hAttempt]
      exact step _ _ act ih allows
    · rw [hAttempt, after_of_error hAttempt]
      dsimp only
      rw [accepted, List.append_nil]
      exact ih

end ChainRun

/-! ### Lives -/

/-- The lives of chains, by the acts that needed a state: with the state, the step and the error that
a chain has come to. -/
inductive Lived : List ChainAct → ChainState → Option Int → Option Fault → Prop
  | pending : Lived [] .pending none none
  | running (steps : List Int) :
      Lived (.start :: steps.map .advance) .running steps.getLast? none
  | completed (steps : List Int) :
      Lived (.start :: steps.map .advance ++ [.complete]) .completed steps.getLast? none
  | aborted (steps : List Int) (fault : Fault) :
      Lived (.start :: steps.map .advance ++ [.abort fault]) .aborted steps.getLast? (some fault)

namespace Lived

variable {acts : List ChainAct} {state : ChainState} {step : Option Int} {error : Option Fault}

theorem of_pending (h : Lived acts .pending step error) :
    acts = [] ∧ step = none ∧ error = none := by
  cases h
  exact ⟨rfl, rfl, rfl⟩

theorem of_running (h : Lived acts .running step error) :
    ∃ steps : List Int, acts = .start :: steps.map .advance ∧ step = steps.getLast? ∧
      error = none := by
  cases h with
  | running steps => exact ⟨steps, rfl, rfl, rfl⟩

/-- An act that a chain allows goes on with its life. -/
theorem apply {done : List ChainAct} {run : ChainRun} {act : ChainAct}
    (h : Lived (done.filter ChainAct.changes) run.state run.step run.error)
    (allows : run.Allows act) :
    Lived ((done ++ [act]).filter ChainAct.changes) (run.apply act).state (run.apply act).step
      (run.apply act).error := by
  rw [List.filter_append]
  cases act with
  | store | release | report => exact (List.append_nil _).symm ▸ h
  | start =>
    rw [allows _ rfl] at h
    obtain ⟨hActs, hStep, hError⟩ := h.of_pending
    simp only [ChainRun.apply, hActs, hStep, hError]
    exact .running []
  | advance step =>
    have hState := allows _ rfl
    rw [hState] at h
    obtain ⟨steps, hActs, -, hError⟩ := h.of_running
    have hLived := Lived.running (steps ++ [step])
    rw [List.map_append, List.getLast?_concat] at hLived
    simp only [ChainRun.apply, hActs, hState, hError]
    exact hLived
  | complete =>
    rw [allows _ rfl] at h
    obtain ⟨steps, hActs, hStep, hError⟩ := h.of_running
    simp only [ChainRun.apply, hActs, hStep, hError]
    exact .completed steps
  | abort fault =>
    rw [allows _ rfl] at h
    obtain ⟨steps, hActs, hStep, hError⟩ := h.of_running
    simp only [ChainRun.apply, hActs, hStep]
    exact .aborted steps fault

theorem aborted_iff (h : Lived acts state step error) :
    state = .aborted ↔ ∃ fault, error = some fault := by
  cases h <;> simp

theorem filterMap_step? (steps : List Int) :
    (steps.map ChainAct.advance).filterMap ChainAct.step? = steps := by
  rw [List.filterMap_map]
  exact List.filterMap_some

/-- The step of a chain is that of its last advance. -/
theorem step_eq (h : Lived acts state step error) :
    step = (acts.filterMap ChainAct.step?).getLast? := by
  cases h with
  | pending => rfl
  | running steps =>
    rw [List.filterMap_cons_none rfl, filterMap_step?]
  | completed steps | aborted steps fault =>
    rw [List.cons_append, List.filterMap_cons_none rfl, List.filterMap_append, filterMap_step?]
    exact (congrArg List.getLast? (List.append_nil steps)).symm

/-- Nothing is done to a chain before it has started. -/
theorem start_first (h : Lived acts state step error) {before later : List ChainAct}
    {act : ChainAct} (split : acts = before ++ act :: later) (other : act ≠ .start) :
    .start ∈ before := by
  have hHead : acts.head? = some .start := by
    cases h with
    | pending => simp at split
    | running | completed | aborted => rfl
  cases before with
  | nil =>
    rw [split] at hHead
    exact absurd (Option.some.inj hHead) other
  | cons first before =>
    rw [split] at hHead
    cases hHead
    exact List.mem_cons_self

end Lived

namespace ChainRun

variable {run : ChainRun} {act : ChainAct}

/-- A chain that nothing has been done to. -/
def fresh (node : Node) : ChainRun := { node }

theorem lived (node : Node) (acts : List ChainAct) :
    Lived (((fresh node).accepted acts).filter ChainAct.changes) ((fresh node).afterAll acts).state
      ((fresh node).afterAll acts).step ((fresh node).afterAll acts).error := by
  apply accepted_induction (P := fun done run =>
    Lived (done.filter ChainAct.changes) run.state run.step run.error)
  · exact .pending
  · intro done run act h allows
    exact h.apply allows

/-! ### What an act leaves as it is -/

/-- Two chains that may differ in their slots only. -/
structure SameStage (run next : ChainRun) : Prop where
  state : next.state = run.state
  step : next.step = run.step
  error : next.error = run.error

theorem sameStage_apply (free : act.expected = none) : run.SameStage (run.apply act) := by
  cases act with
  | store | release | report => exact ⟨rfl, rfl, rfl⟩
  | start | advance | complete | abort => cases free

/-- A chain that has ended stays as it ended. -/
theorem sameStage_after (ended : run.state = .completed ∨ run.state = .aborted) (act : ChainAct) :
    run.SameStage (run.after act) := by
  obtain ⟨allows, hAttempt⟩ | ⟨_, _, _, hAttempt⟩ := run.attempt_cases act
  · rw [after_of_ok hAttempt]
    apply sameStage_apply
    cases hExpected : act.expected with
    | none => rfl
    | some expected =>
      -- No act needs a state that ends the chain.
      have hState := allows expected hExpected
      rw [hState] at ended
      cases act with
      | start | advance | complete | abort =>
        cases hExpected
        simp at ended
      | store | release | report => cases hExpected
  · rw [after_of_error hAttempt]
    exact ⟨rfl, rfl, rfl⟩

theorem sameStage_afterAll (ended : run.state = .completed ∨ run.state = .aborted)
    (acts : List ChainAct) : run.SameStage (run.afterAll acts) := by
  induction acts using List.reverseRecOn with
  | nil => exact ⟨rfl, rfl, rfl⟩
  | append_singleton acts act ih =>
    rw [afterAll_concat]
    rw [← ih.state] at ended
    have hLast := sameStage_after ended act
    exact ⟨hLast.state.trans ih.state, hLast.step.trans ih.step, hLast.error.trans ih.error⟩

/-! ### Slots -/

theorem slots_apply (run : ChainRun) (act : ChainAct) : (run.apply act).table.slots =
    if act.empties then [] else run.table.slots ++ act.slot?.toList := by
  cases act with
  | store | release | report => rfl
  | start | advance | complete | abort => exact (List.append_nil _).symm

/-- One act stores a slot or takes all of them, whether or not it needs a state. -/
theorem slots_after (run : ChainRun) (act : ChainAct) : (run.after act).table.slots =
    if act.empties then [] else run.table.slots ++ act.slot?.toList := by
  obtain ⟨-, hAttempt⟩ | ⟨expected, hExpected, -, hAttempt⟩ := run.attempt_cases act
  · rw [after_of_ok hAttempt, slots_apply]
  · have hChanges : act.changes = true := by
      rw [ChainAct.changes, hExpected]
      rfl
    obtain ⟨hKeeps, hNone⟩ := ChainAct.keepsSlots_of_changes hChanges
    rw [after_of_error hAttempt, hKeeps, hNone]
    exact (List.append_nil _).symm

/-- The slots of a chain are those that were stored since they were last taken. -/
theorem slots_afterAll (node : Node) (acts : List ChainAct) :
    ((fresh node).afterAll acts).table.slots =
      (acts.rtakeWhile fun act => !act.empties).filterMap ChainAct.slot? := by
  induction acts using List.reverseRecOn with
  | nil => rfl
  | append_singleton acts act ih =>
    rw [afterAll_concat, slots_after, List.rtakeWhile_concat, ih]
    cases act.empties with
    | true => rfl
    | false =>
      simp only [Bool.not_false, if_true, Bool.false_eq_true, if_false, List.filterMap_append]
      cases hSlot : act.slot? <;> simp [hSlot]

/-! ### The whole life -/

/-- What holds of a chain after any acts. -/
structure Lifecycle (node : Node) (acts : List ChainAct) (run : ChainRun) : Prop where
  lived : Lived (((fresh node).accepted acts).filter ChainAct.changes) run.state run.step run.error
  aborted : run.state = .aborted ↔ ∃ fault, run.error = some fault
  step : run.step = (((fresh node).accepted acts).filterMap ChainAct.step?).getLast?
  started : ∀ before step later, (fresh node).accepted acts = before ++ .advance step :: later →
    .start ∈ before
  ended : run.state = .completed ∨ run.state = .aborted →
    ∀ more, run.SameStage (run.afterAll more)
  free : ∀ act, act.expected = none → ∃ next, run.attempt act = .ok next ∧ run.SameStage next
  done : ∀ act, act.expected = some run.state → ∃ next, run.attempt act = .ok next
  refused : ∀ act expected, act.expected = some expected → run.state ≠ expected →
    run.attempt act = .error ⟨run.state, expected⟩ ∧ run.after act = run
  slots : run.table.slots = (acts.rtakeWhile fun act => !act.empties).filterMap ChainAct.slot?

theorem filterMap_step?_filter (acts : List ChainAct) :
    (acts.filter ChainAct.changes).filterMap ChainAct.step? = acts.filterMap ChainAct.step? := by
  rw [List.filterMap_filter]
  apply List.filterMap_congr
  intro act _
  cases act <;> rfl

theorem lifecycle_afterAll (node : Node) (acts : List ChainAct) :
    Lifecycle node acts ((fresh node).afterAll acts) := by
  have hLived := lived node acts
  constructor
  · exact hLived
  · exact hLived.aborted_iff
  · rw [hLived.step_eq, filterMap_step?_filter]
  · intro before step later hSplit
    have hChanges : ((fresh node).accepted acts).filter ChainAct.changes =
        before.filter ChainAct.changes ++ .advance step :: later.filter ChainAct.changes := by
      rw [hSplit, List.filter_append]
      rfl
    have hStart := hLived.start_first hChanges nofun
    exact (List.mem_filter.mp hStart).1
  · exact sameStage_afterAll
  · intro act free
    refine ⟨_, attempt_of_allows ?_, sameStage_apply free⟩
    intro expected hExpected
    rw [free] at hExpected
    cases hExpected
  · intro act hExpected
    refine ⟨_, attempt_of_allows ?_⟩
    intro expected hOther
    exact Option.some.inj (hExpected.symm.trans hOther)
  · intro act expected hExpected other
    have hRefused := attempt_of_other hExpected other
    exact ⟨hRefused, after_of_error hRefused⟩
  · exact slots_afterAll node acts

end ChainRun

end Directive
