import Directive.Proofs.Run.Runs

/-!
# A look in front of every call

An item looks at the stop signal in front of every call, and waits for nothing in between. If the
signal tells whether some event is set, no call is entered while it is.

* `Program.Guarded`, `guarded_ofItem`: looks and calls in the program of an item;
* `Direct.runScript_unset`, `Rounds.runScript_unset`: what a handler would do with a call while the
  event is set makes no difference to a run.
-/

namespace Directive

/-- The stop signal tells whether an event is set. -/
def Signal.Tells {σ : Type} (signal : Signal σ) (isSet : σ → Bool) : Prop :=
  ∀ s, (signal s).1 = isSet (signal s).2

namespace Program

variable {α β : Type}

/-- In front of each call is a look that did not stop the run, with nothing but notes between them.
The flag says whether the program is right behind such a look. -/
inductive Guarded : Bool → Program α → Prop
  | done {goesOn : Bool} {a : α} : Guarded goesOn (.done a)
  | note {goesOn : Bool} {records : List Record} {next : Program α} (rest : Guarded goesOn next) :
      Guarded goesOn (.note records next)
  | look {goesOn : Bool} {next : Bool → Program α} (rest : ∀ stop, Guarded (!stop) (next stop)) :
      Guarded goesOn (.look next)
  | call {c : Call} {next : Reply → Program α} (rest : ∀ r, Guarded false (next r)) :
      Guarded true (.call c next)

namespace Guarded

variable {goesOn : Bool} {p : Program α}

theorem weaken (h : Guarded false p) : Guarded goesOn p := by
  generalize hFlag : false = flag at h
  induction h with
  | done => exact .done
  | note _ ih => exact .note (ih hFlag)
  | look rest _ => exact .look rest
  | call => cases hFlag

theorem bind {f : α → Program β} (h : Guarded goesOn p) (hNext : ∀ a, Guarded false (f a)) :
    Guarded goesOn (p.bind f) := by
  induction h with
  | done => exact (hNext _).weaken
  | note _ ih => exact .note ih
  | look _ ih => exact .look ih
  | call _ ih => exact .call ih

theorem task_bind {t : Task α} {f : α → Task β} (h : Guarded goesOn t)
    (hNext : ∀ a, Guarded false (f a)) : Guarded goesOn (t >>= f : Task β) := by
  change Guarded goesOn (Program.bind t (ExceptT.bindCont f))
  refine h.bind fun a => ?_
  cases a with
  | ok a => exact hNext a
  | error e => exact .done

end Guarded

variable (r : Resolver)

theorem guarded_perform (i : Invocation) (table : SlotTable) (index : Option Nat) :
    Guarded true (perform r i table index) := by
  rw [perform_eq]
  rcases i.resolveInput r table (index.getD 0) with fault | ⟨input, source⟩
  · exact .done
  · exact .note (.call fun _ => .done)

mutual

theorem guarded_ofNode : ∀ (n : Node) (table : SlotTable) (index : Option Nat),
    Guarded true (ofNode r table index n)
  | .invocation i, table, index => by
    rw [ofNode]
    exact guarded_perform r i table index
  | .chain slot line column steps, table, index => by
    rw [ofNode_chain]
    refine .note (Guarded.task_bind ?_ fun run => ?_)
    · exact (guarded_ofSteps steps (started slot line column steps) 0 rfl).weaken
    · cases run with
      | some run => exact .done
      | none => exact .done

theorem guarded_ofSteps : ∀ (steps : List Node) (run : ChainRun) (index : Nat),
    run.state = .running → Guarded false (ofSteps r index steps run)
  | [], run, index, running => by
    rw [ofSteps_nil r running]
    exact .note .done
  | step :: steps, run, index, running => by
    have hAfter (ended : StepEnd) : Guarded false (afterStep r index step steps
        { run with step := some (index : Int) } ended) := by
      rcases ended with (failure | value) | _
      · exact .note .done
      · exact guarded_ofSteps steps _ (index + 1) running
      · exact .note .done
    rw [ofSteps_cons r running]
    refine .look fun stop => ?_
    cases stop with
    | true => exact hAfter (.fault (step.stopped (some index)))
    | false => exact (guarded_ofNode step run.table (some index)).task_bind hAfter

end

theorem guarded_ofItem (position : Nat) (n : Node) : Guarded false (ofItem r position n) := by
  cases n with
  | invocation i =>
    have hAfter (ended : StepEnd) : Guarded false (afterCommand position i ended) := by
      rcases ended with (failure | value) | _
      · exact .note .done
      · exact .done
      · exact .done
    rw [ofItem_invocation]
    refine .look fun stop => ?_
    cases stop with
    | true => exact hAfter (.fault ((Node.invocation i).stopped none))
    | false => exact (guarded_perform r i .empty none).task_bind hAfter
  | chain slot line column steps =>
    rw [ofItem_chain]
    refine .note (Guarded.task_bind (guarded_ofSteps r steps _ 0 rfl) fun run => ?_)
    cases run with
    | some run => exact .done
    | none => exact .done

end Program

open Program (Guarded ofItem guarded_ofItem)

variable {σ α : Type} {isSet : σ → Bool}

/-- If each item is run in the same way, so are items one after another. -/
theorem inOrder_congr {runItem runItem' : Nat → Node → Run σ ItemReport}
    (same : ∀ position n, runItem' position n = runItem position n) (stopOnError : Bool)
    (position : Nat) (nodes : List Node) :
    inOrder runItem' stopOnError position nodes = inOrder runItem stopOnError position nodes := by
  rw [funext fun position => funext (same position)]

namespace Direct

/-- The same runs with another handler. -/
def handledBy (d : Direct σ) (handler : Handler σ) : Direct σ := { d with handler }

variable {d : Direct σ} {handler : Handler σ}

/-- A guarded program is followed in the same way whatever the handler does while the event is
set. -/
theorem follow_unset (tells : d.signal.Tells isSet)
    (same : ∀ call s, isSet s = false → handler call s = d.handler call s) {goesOn : Bool}
    {p : Program α} (guarded : Guarded goesOn p) (item : Nat) (w : World σ)
    (unset : goesOn = true → isSet w.outer = false) :
    (d.handledBy handler).follow item p w = d.follow item p w := by
  induction guarded generalizing w with
  | done => rfl
  | note _ ih => exact ih _ unset
  | @look _ next _ ih =>
    refine ih (d.signal w.outer).1 { w with outer := (d.signal w.outer).2 } fun hStop => ?_
    rw [← tells w.outer]
    simpa using hStop
  | @call call next _ ih =>
    have hEnter : (d.handledBy handler).enter item call w = d.enter item call w := by
      have hResponse : (d.handledBy handler).handler call (w.add [.entered item call]).outer =
          d.handler call (w.add [.entered item call]).outer := same call w.outer (unset rfl)
      change (Except.ok ((d.handledBy handler).handler call _).outcome, _) =
        (Except.ok (d.handler call _).outcome, _)
      rw [hResponse]
    obtain ⟨o, w₁, hEntered, -⟩ := d.enter_eq item call w
    rw [follow, follow, run_bind_of_ok hEntered, run_bind_of_ok (hEnter.trans hEntered)]
    rcases o with value | (f | f | reasons)
    · exact ih _ w₁ (by simp)
    · exact ih _ w₁ (by simp)
    · exact ih _ w₁ (by simp)
    · rfl

theorem runScript_unset (tells : d.signal.Tells isSet)
    (same : ∀ call s, isSet s = false → handler call s = d.handler call s) (stopOnError : Bool)
    (s : Script) : (d.handledBy handler).runScript stopOnError s = d.runScript stopOnError s := by
  have hItem (position : Nat) (n : Node) :
      (d.handledBy handler).runItem position n = d.runItem position n := by
    have hFollow : (d.handledBy handler).follow position (ofItem d.resolver position n) =
        d.follow position (ofItem d.resolver position n) :=
      funext fun w => follow_unset tells same (guarded_ofItem d.resolver position n) position w
        (by simp)
    rw [← followTask_ofItem, ← followTask_ofItem, followTask, followTask]
    exact congrArg (· >>= _) hFollow
  rw [runScript, runScript, runItems_eq_inOrder, runItems_eq_inOrder, inOrder_congr hItem]

end Direct

/-- A process that waits for a call that has been entered, and goes on with a look. -/
inductive Process.Attentive : Process σ α → Prop
  | ended {a : α} : Attentive (.ended a)
  | waiting {call : Call} {stage : Stage σ} {next : Reply → Program α}
      (entered : stage ≠ .starting) (rest : ∀ r, Guarded false (next r)) :
      Attentive (.waiting call stage next)

namespace Rounds

/-- The same runs with another handler. -/
def handledBy (c : Rounds σ) (handler : PausingHandler σ) : Rounds σ := { c with handler }

variable {c : Rounds σ} {handler : PausingHandler σ}

/-- A turn that is the same whatever the handler does while the event is set, up to a call that has
been entered. -/
structure Unset (turn' turn : Process σ α × World σ) : Prop where
  same : turn' = turn
  attentive : turn.1.Attentive

theorem Unset.still {p : Process σ α} (h : p.Attentive) (w : World σ) : Unset (p, w) (p, w) :=
  ⟨rfl, h⟩

section Turns

variable (unlimited : c.limit = none) (tells : c.signal.Tells isSet)
  (same : ∀ call s, isSet s = false → handler call s = c.handler call s)
include unlimited

theorem follow_unset {item : Nat} {call : Call} {next : Reply → Program α}
    (rest : ∀ r, Guarded false (next r))
    (hNext : ∀ r w, Unset ((c.handledBy handler).settle item (next r) w) (c.settle item (next r) w))
    (p : Pending σ) (w : World σ) :
    Unset ((c.handledBy handler).follow item call next p w) (c.follow item call next p w) := by
  cases p with
  | pause touch more => exact .still (.waiting (by simp) rest) w
  | hang => exact .still (.waiting (by simp) rest) w
  | reply o =>
    have hUnlimited : (c.handledBy handler).limit = none := unlimited
    rw [follow, follow, unlimited, hUnlimited]
    exact hNext _ _

include tells same

theorem settle_unset {goesOn : Bool} {p : Program α} (guarded : Guarded goesOn p) (item : Nat)
    (w : World σ) (unset : goesOn = true → isSet w.outer = false) :
    Unset ((c.handledBy handler).settle item p w) (c.settle item p w) := by
  induction guarded generalizing w with
  | done => exact .still .ended w
  | note _ ih => exact ih _ unset
  | @look _ next _ ih =>
    refine ih (c.signal w.outer).1 { w with outer := (c.signal w.outer).2 } fun hStop => ?_
    rw [← tells w.outer]
    simpa using hStop
  | @call call next rest ih =>
    have hEnter : (c.handledBy handler).enter item call w = c.enter item call w := by
      have hOpening : (c.handledBy handler).handler call (w.add [.entered item call]).outer =
          c.handler call (w.add [.entered item call]).outer := same call w.outer (unset rfl)
      simp only [enter, hOpening]
    have hUnlimited : (c.handledBy handler).limit = none := unlimited
    rw [settle_call unlimited, settle_call hUnlimited, hEnter]
    exact follow_unset unlimited rest (fun r w => ih r w (by simp)) _ _

theorem resume_unset {p : Process σ α} (h : p.Attentive) (item : Nat) (w : World σ) :
    Unset ((c.handledBy handler).resume item p w) (c.resume item p w) := by
  cases h with
  | ended => exact .still .ended w
  | @waiting call stage next entered rest =>
    have hNext (r : Reply) (w : World σ) :=
      settle_unset unlimited tells same (rest r) item w (by simp)
    rcases stage with _ | (o | ⟨touch, more⟩ | _) | ⟨_ | n, r⟩
    · exact absurd rfl entered
    · exact follow_unset unlimited rest hNext (.reply o) w
    · exact follow_unset unlimited rest hNext (more w.outer) { w with outer := touch w.outer }
    · exact .still (.waiting (by simp) rest) w
    · exact hNext r w
    · exact .still (.waiting (by simp) rest) w

theorem relieve_unset {p : Process σ α} (h : p.Attentive) (r : Reply) (item : Nat) (w : World σ) :
    Unset ((c.handledBy handler).relieve r item p w) (c.relieve r item p w) := by
  cases h with
  | ended => exact .still .ended w
  | @waiting call stage next entered rest =>
    have hStill : (Process.waiting call stage next : Process σ α).Attentive := .waiting entered rest
    rcases stage with _ | (o | ⟨touch, more⟩ | _) | ⟨n, reply⟩
    · exact .still hStill w
    · exact .still hStill w
    · exact .still hStill w
    · exact settle_unset unlimited tells same (rest r) item w (by simp)
    · exact .still hStill w

omit unlimited tells same in
theorem turns_unset {turn' turn : Nat → Process σ α → World σ → Process σ α × World σ}
    (hTurn : ∀ item p w, p.Attentive → Unset (turn' item p w) (turn item p w))
    {js : List (Job σ α)} (h : ∀ j ∈ js, j.process.Attentive) (w : World σ) :
    turns turn' js w = turns turn js w ∧ ∀ j ∈ (turns turn js w).1, j.process.Attentive := by
  induction js generalizing w with
  | nil => exact ⟨rfl, by simp [turns]⟩
  | cons j js ih =>
    obtain ⟨hFirst, hOthers⟩ := List.forall_mem_cons.mp h
    obtain ⟨hSame, hAttentive⟩ := hTurn j.item j.process w hFirst
    obtain ⟨hRest, hAll⟩ := ih hOthers (turn j.item j.process w).2
    simp only [turns]
    rw [hSame, hRest]
    exact ⟨rfl, List.forall_mem_cons.mpr ⟨hAttentive, hAll⟩⟩

theorem launch_unset {tasks : List (Nat × Program α)} (h : ∀ t ∈ tasks, Guarded false t.2)
    (w : World σ) : (c.handledBy handler).launch tasks w = c.launch tasks w ∧
      ∀ j ∈ (c.launch tasks w).1, j.process.Attentive := by
  induction tasks generalizing w with
  | nil => exact ⟨rfl, by simp [launch]⟩
  | cons t tasks ih =>
    obtain ⟨hFirst, hOthers⟩ := List.forall_mem_cons.mp h
    obtain ⟨hSame, hAttentive⟩ := settle_unset unlimited tells same hFirst t.1 w (by simp)
    obtain ⟨hRest, hAll⟩ := ih hOthers (c.settle t.1 t.2 w).2
    simp only [launch]
    rw [hSame, hRest]
    exact ⟨rfl, List.forall_mem_cons.mpr ⟨hAttentive, hAll⟩⟩

theorem drive_unset {js : List (Job σ α)} (h : ∀ j ∈ js, j.process.Attentive) (w : World σ) :
    (c.handledBy handler).drive js w = c.drive js w := by
  fun_induction drive c js w with
  | case1 js w moves ih =>
    obtain ⟨hSame, hAttentive⟩ := turns_unset
      (fun item p w h => resume_unset unlimited tells same h item w) h w
    rw [drive, if_pos moves, hSame]
    exact ih hAttentive
  | case2 js w still relief =>
    have hRelief : (c.handledBy handler).relief = none := relief
    rw [drive, if_neg still, hRelief]
  | case3 js w still r relief hangs ih =>
    obtain ⟨hSame, hAttentive⟩ := turns_unset
      (fun item p w h => relieve_unset unlimited tells same h r item w) h w
    have hRelief : (c.handledBy handler).relief = some r := relief
    rw [drive, if_neg still, hRelief]
    dsimp only
    rw [if_pos hangs, hSame]
    exact ih hAttentive
  | case4 js w still r relief hangs =>
    have hRelief : (c.handledBy handler).relief = some r := relief
    rw [drive, if_neg still, hRelief]
    dsimp only
    rw [if_neg hangs]

theorem together_unset {tasks : List (Nat × Task α)} (h : ∀ t ∈ tasks, Guarded false t.2.run) :
    (c.handledBy handler).together tasks = c.together tasks := by
  funext w
  have hTasks : ∀ t ∈ tasks.map fun t => (t.1, t.2.run), Guarded false t.2 :=
    List.forall_mem_map.mpr h
  obtain ⟨hLaunch, hAttentive⟩ := launch_unset unlimited tells same hTasks w
  simp only [together]
  rw [hLaunch, drive_unset unlimited tells same hAttentive]

theorem runScript_unset (s : Script) : (c.handledBy handler).runScript s = c.runScript s := by
  have hItem (position : Nat) (n : Node) :
      (c.handledBy handler).runItem position n = c.runItem position n := by
    rw [runItem, runItem]
    refine congrArg (· >>= _) (together_unset unlimited tells same ?_)
    exact List.forall_mem_singleton.mpr (guarded_ofItem c.resolver position n)
  have hTogether : (c.handledBy handler).runTogether s.items = c.runTogether s.items := by
    refine together_unset unlimited tells same fun t ht => ?_
    obtain ⟨k, hk, rfl⟩ := List.mem_mapIdx.mp ht
    exact guarded_ofItem c.resolver k _
  rw [runScript, runScript, hTogether, runItems_eq_inOrder, runItems_eq_inOrder,
    inOrder_congr hItem]
  rfl

end Turns

end Rounds

end Directive
