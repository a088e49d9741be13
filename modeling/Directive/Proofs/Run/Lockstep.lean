import Directive.Proofs.Run.Isolation

/-!
# Runs in rounds that do not interleave

When one item moves at a time, a run in rounds is the direct run whose handler does at once what the
pausing handler does in the course of a call.

* `Pending.Gives`: what a call comes to that nobody else disturbs;
* `Rounds.Mirrors`: a run in rounds with the parts of a direct run;
* `finishes_settle`: a program by itself ends in rounds as it does in a direct run;
* `runScript_lockstep`: the two runs of a script have the same report and the same journal.
-/

namespace Directive

open Program (ofItem)

variable {σ α : Type}

/-- A call that goes on from some state, with nobody else at work, and what it comes to. -/
inductive Pending.Gives : Pending σ → σ → Outcome → σ → Prop
  | reply {o : Outcome} {s : σ} : Gives (.reply o) s o s
  | pause {touch : σ → σ} {more : σ → Pending σ} {s s' : σ} {o : Outcome}
      (rest : Gives (more s) (touch s) o s') : Gives (.pause touch more) s o s'

namespace Direct

variable (d : Direct σ)

/-- The handler never gives up. -/
def Tireless : Prop :=
  ∀ call s reasons, (d.handler call s).outcome ≠ .threw (.cancelled reasons)

variable {d}

theorem follow_call_of_tireless (tireless : d.Tireless) (item : Nat) (call : Call)
    (next : Reply → Program α) (w : World σ) :
    ∃ w₁, d.enter item call w = (.ok (d.handler call w.outer).outcome, w₁) ∧
      d.follow item (.call call next) w =
        d.follow item (next (.outcome (d.handler call w.outer).outcome)) w₁ := by
  obtain ⟨w₁, hEnter⟩ : ∃ w₁, d.enter item call w = (.ok (d.handler call w.outer).outcome, w₁) :=
    ⟨_, rfl⟩
  refine ⟨w₁, hEnter, ?_⟩
  rw [follow, run_bind_of_ok hEnter]
  rcases hOutcome : (d.handler call w.outer).outcome with value | (f | f | reasons)
  · rfl
  · rfl
  · rfl
  · exact absurd hOutcome (tireless call w.outer reasons)

theorem follow_ends (tireless : d.Tireless) (item : Nat) (p : Program α) (w : World σ) :
    ∃ a w', d.follow item p w = (.ok a, w') := by
  induction p generalizing w with
  | done a => exact ⟨a, w, rfl⟩
  | note records next ih => exact ih (w.note records)
  | look next ih => exact ih (d.signal w.outer).1 { w with outer := (d.signal w.outer).2 }
  | call call next ih =>
    obtain ⟨w₁, -, hFollow⟩ := follow_call_of_tireless tireless item call next w
    obtain ⟨a, w', h⟩ := ih _ w₁
    exact ⟨a, w', hFollow.trans h⟩

/-- If the handler never gives up, an item comes to a report. -/
theorem follow_ofItem (tireless : d.Tireless) (position : Nat) (n : Node) (w : World σ) :
    ∃ report w', d.follow position (ofItem d.resolver position n) w = (.ok (.ok report), w') := by
  obtain ⟨a, w', hFollow⟩ := follow_ends tireless position (ofItem d.resolver position n) w
  obtain ⟨exchanges, events, hEnds, -, -⟩ := d.ends_of_follow hFollow
  obtain ⟨e, course, agrees⟩ := Program.course_of_ofItem hEnds
  cases agrees with
  | completed => exact ⟨_, w', hFollow⟩
  | aborted => exact ⟨_, w', hFollow⟩
  | interrupted agrees =>
    -- a direct run calls nothing off
    cases agrees with
    | interrupted =>
      obtain ⟨_, _, _, _, _, hReply, _⟩ := course.explains
      cases hReply

theorem runItem_of_follow {position : Nat} {n : Node} {report : ItemReport} {w w' : World σ}
    (h : d.follow position (ofItem d.resolver position n) w = (.ok (.ok report), w')) :
    d.runItem position n w = (.ok report, w') := by
  rw [← followTask_ofItem, followTask, run_bind_of_ok h]
  rfl

end Direct

namespace Rounds

variable {c : Rounds σ} {d : Direct σ} {item : Nat}

/-- A run in rounds works with the parts of a direct run. In the course of a call its handler does
what the other one does at once. -/
structure Mirrors (c : Rounds σ) (d : Direct σ) : Prop where
  records : ∀ call s, (c.handler call s).records = (d.handler call s).records
  gives : ∀ call s, (c.handler call s).pending.Gives (c.handler call s).state
    (d.handler call s).outcome (d.handler call s).state
  signal : c.signal = d.signal
  resolver : c.resolver = d.resolver

/-- No call ever gives up control. -/
def Unpausing (c : Rounds σ) : Prop := ∀ call s, ∃ o, (c.handler call s).pending = .reply o

/-- A process by itself goes on to its end. -/
def Finishes (c : Rounds σ) (item : Nat) (turn : Process σ α × World σ) (a : α) (w : World σ) :
    Prop :=
  c.drive [⟨item, turn.1⟩] turn.2 = ([⟨item, .ended a⟩], w)

theorem drive_of_still {js : List (Job σ α)}
    (still : ∀ j ∈ js, canMove j.process = false ∧ hangs j.process = false) (w : World σ) :
    c.drive js w = (js, w) := by
  have hMoves : (js.any fun j => canMove j.process) = false :=
    List.any_eq_false.mpr fun j hj => by simp [(still j hj).1]
  have hHangs : (js.any fun j => hangs j.process) = false :=
    List.any_eq_false.mpr fun j hj => by simp [(still j hj).2]
  rw [drive, hMoves, hHangs]
  rcases c.relief with _ | r <;> rfl

theorem finishes_ended (a : α) (w : World σ) : c.Finishes item (.ended a, w) a w :=
  drive_of_still (by simp [canMove, hangs]) w

theorem finishes_of_resume {p : Process σ α} {a : α} {w w' : World σ} (moves : canMove p = true)
    (h : c.Finishes item (c.resume item p w) a w') : c.Finishes item (p, w) a w' := by
  rw [Finishes, drive, if_pos (by simpa using moves)]
  exact h

theorem finishes_follow (unlimited : c.limit = none) {call : Call} {next : Reply → Program α}
    {p : Pending σ} {s s' : σ} {o : Outcome} {a : α} {w w' : World σ} (gives : p.Gives s o s')
    (here : w.outer = s)
    (hNext : c.Finishes item (c.settle item (next (.outcome o))
      (({ w with outer := s' } : World σ).add [.left item o])) a w') :
    c.Finishes item (c.follow item call next p w) a w' := by
  induction gives generalizing w with
  | reply =>
    subst here
    rw [follow, unlimited]
    exact hNext
  | pause _ ih =>
    subst here
    exact finishes_of_resume rfl (ih rfl hNext)

/-- A program by itself ends in rounds as it does in a direct run. -/
theorem finishes_settle (mirrors : c.Mirrors d) (tireless : d.Tireless) (unlimited : c.limit = none)
    (p : Program α) {a : α} {w w' : World σ} (h : d.follow item p w = (.ok a, w')) :
    c.Finishes item (c.settle item p w) a w' := by
  induction p generalizing w with
  | done b =>
    cases h
    exact finishes_ended _ _
  | note records next ih => exact ih h
  | look next ih =>
    have hLook : c.settle item (.look next) w =
        c.settle item (next (d.signal w.outer).1) { w with outer := (d.signal w.outer).2 } := by
      rw [← mirrors.signal]
      rfl
    rw [hLook]
    exact ih _ h
  | call call next ih =>
    obtain ⟨w₁, hEnter, hFollow⟩ :=
      Direct.follow_call_of_tireless tireless item call next w
    have hNext := ih _ (hFollow.symm.trans h)
    have hWorld : w₁ = (({ (c.enter item call w).2 with
        outer := (d.handler call w.outer).state } : World σ).add
          [.left item (d.handler call w.outer).outcome]) := by
      rw [enter, mirrors.records]
      exact (congrArg Prod.snd hEnter).symm
    rw [settle_call unlimited]
    rw [hWorld] at hNext
    exact finishes_follow unlimited (mirrors.gives call w.outer) rfl hNext

/-- If no call gives up control, a program ends in its first turn. -/
theorem settle_of_unpausing (unpausing : c.Unpausing) (unlimited : c.limit = none)
    (p : Program α) (w : World σ) : ∃ a w', c.settle item p w = (.ended a, w') := by
  induction p generalizing w with
  | done a => exact ⟨a, w, rfl⟩
  | note records next ih => exact ih (w.note records)
  | look next ih => exact ih (c.signal w.outer).1 { w with outer := (c.signal w.outer).2 }
  | call call next ih =>
    obtain ⟨o, hReply⟩ := unpausing call w.outer
    have hEntered : (c.enter item call w).1 = .reply o := hReply
    rw [settle_call unlimited, hEntered, follow, unlimited]
    exact ih (.outcome o) _

theorem settle_eq_follow (mirrors : c.Mirrors d) (tireless : d.Tireless)
    (unlimited : c.limit = none) (unpausing : c.Unpausing) (p : Program α) {a : α} {w w' : World σ}
    (h : d.follow item p w = (.ok a, w')) : c.settle item p w = (.ended a, w') := by
  have hFinishes := finishes_settle mirrors tireless unlimited p h
  obtain ⟨b, w₁, hSettle⟩ : ∃ b w₁, c.settle item p w = (.ended b, w₁) :=
    settle_of_unpausing unpausing unlimited p w
  rw [hSettle] at hFinishes ⊢
  cases (finishes_ended b w₁).symm.trans hFinishes
  rfl

theorem together_of_finishes {t : Task α} {a : α} {w w' : World σ}
    (h : c.Finishes item (c.settle item t w) (.ok a) w') :
    c.together [(item, t)] w = (.ok [a], w') := by
  have hTogether : c.together [(item, t)] w =
      (gather (c.drive [⟨item, (c.settle item t w).1⟩] (c.settle item t w).2).1,
        (c.drive [⟨item, (c.settle item t w).1⟩] (c.settle item t w).2).2) := rfl
  rw [hTogether, h]
  rfl

theorem runItem_eq_direct (mirrors : c.Mirrors d) (tireless : d.Tireless)
    (unlimited : c.limit = none) (position : Nat) (n : Node) :
    c.runItem position n = d.runItem position n := by
  funext w
  obtain ⟨report, w', hFollow⟩ := Direct.follow_ofItem tireless position n w
  have hFinishes := finishes_settle mirrors tireless unlimited _ hFollow
  rw [← mirrors.resolver] at hFinishes
  rw [Direct.runItem_of_follow hFollow, runItem, run_bind_of_ok (together_of_finishes hFinishes)]
  rfl

theorem runItems_eq_direct (mirrors : c.Mirrors d) (tireless : d.Tireless)
    (unlimited : c.limit = none) (position : Nat) (nodes : List Node) :
    c.runItems position nodes = d.runItems c.stopOnError position nodes := by
  induction nodes generalizing position with
  | nil => rfl
  | cons node nodes ih =>
    rw [runItems, Direct.runItems, runItem_eq_direct mirrors tireless unlimited, ih]

theorem gather_cons {a : α} {as : List α} {js : List (Job σ (Except Escape α))}
    (h : gather js = .ok as) : gather (⟨item, .ended (.ok a)⟩ :: js) = .ok (a :: as) := by
  rw [gather, h]
  rfl

/-- If no call gives up control, each item ends in its first turn, in the order of the text. -/
theorem launch_eq_direct (mirrors : c.Mirrors d) (tireless : d.Tireless)
    (unlimited : c.limit = none) (unpausing : c.Unpausing) (position : Nat) (nodes : List Node)
    (w : World σ) :
    ∃ js reports w', c.launch (nodes.mapIdx fun k n =>
        (position + k, ofItem c.resolver (position + k) n)) w = (js, w') ∧
      (∀ j ∈ js, canMove j.process = false ∧ hangs j.process = false) ∧
      gather js = .ok reports ∧ d.runItems false position nodes w = (.ok reports, w') := by
  induction nodes generalizing position w with
  | nil => exact ⟨[], [], w, rfl, by simp, rfl, rfl⟩
  | cons node nodes ih =>
    obtain ⟨report, w₁, hFollow⟩ := Direct.follow_ofItem tireless position node w
    have hSettle := settle_eq_follow mirrors tireless unlimited unpausing _ hFollow
    rw [← mirrors.resolver] at hSettle
    obtain ⟨js, reports, w', hLaunch, hStill, hGather, hRest⟩ := ih (position + 1) w₁
    refine ⟨⟨position, .ended (.ok report)⟩ :: js, report :: reports, w', ?_, ?_,
      gather_cons hGather, ?_⟩
    · have hOthers : (nodes.mapIdx fun k n =>
          (position + (k + 1), ofItem c.resolver (position + (k + 1)) n)) =
          nodes.mapIdx fun k n =>
            (position + 1 + k, ofItem c.resolver (position + 1 + k) n) := by
        simp only [Nat.add_assoc, Nat.add_comm 1]
      rw [List.mapIdx_cons, hOthers, launch, Nat.add_zero, hSettle]
      dsimp only
      rw [hLaunch]
    · exact List.forall_mem_cons.mpr ⟨⟨rfl, rfl⟩, hStill⟩
    · rw [Direct.runItems, run_bind_of_ok (Direct.runItem_of_follow hFollow)]
      simp only [Bool.false_and, Bool.false_eq_true, if_false]
      rw [run_bind_of_ok hRest]
      rfl

theorem runTogether_eq_direct (mirrors : c.Mirrors d) (tireless : d.Tireless)
    (unlimited : c.limit = none) (unpausing : c.Unpausing) (nodes : List Node) :
    c.runTogether nodes = d.runItems false 0 nodes := by
  funext w
  obtain ⟨js, reports, w', hLaunch, hStill, hGather, hItems⟩ :=
    launch_eq_direct mirrors tireless unlimited unpausing 0 nodes w
  have hTasks : ((nodes.mapIdx fun k n => (k, ofItem c.resolver k n)).map fun t => (t.1, t.2.run)) =
      nodes.mapIdx fun k n => (0 + k, ofItem c.resolver (0 + k) n) := by
    simp only [Nat.zero_add]
    exact List.map_id _
  have hTogether : c.runTogether nodes w =
      (gather (c.drive js w').1, (c.drive js w').2) := by
    rw [runTogether, together, hTasks, hLaunch]
  rw [hTogether, drive_of_still hStill, hGather, hItems]

theorem runItems_ends (tireless : d.Tireless) (stopOnError : Bool) (position : Nat)
    (nodes : List Node) (w : World σ) :
    ∃ reports w', d.runItems stopOnError position nodes w = (.ok reports, w') := by
  induction nodes generalizing position w with
  | nil => exact ⟨[], w, rfl⟩
  | cons node nodes ih =>
    obtain ⟨report, w₁, hFollow⟩ := Direct.follow_ofItem tireless position node w
    obtain ⟨reports, w', hRest⟩ := ih (position + 1) w₁
    rw [Direct.runItems, run_bind_of_ok (Direct.runItem_of_follow hFollow)]
    split
    · exact ⟨_, w₁, rfl⟩
    · exact ⟨report :: reports, w', by rw [run_bind_of_ok hRest]; rfl⟩

/-- A run in rounds whose items do not interleave comes to the report of the direct run, in the same
state and with the same journal: if it stops on the first error, if it takes items one after
another, or if no call gives up control. -/
theorem runScript_lockstep (mirrors : c.Mirrors d) (tireless : d.Tireless)
    (unlimited : c.limit = none)
    (apart : c.stopOnError = true ∨ c.concurrent = false ∨ c.Unpausing) (s : Script)
    (w : World σ) :
    ∃ report w', c.runScript s w = (.ok report, w') ∧
      d.runScript c.stopOnError s w = (.ok report, w') := by
  have hSame : c.runScript s = d.runScript c.stopOnError s := by
    rw [runScript, Direct.runScript]
    split
    · rename_i hTogether
      obtain ⟨hConcurrent, hGoesOn⟩ := Bool.and_eq_true_iff.mp hTogether
      rw [Bool.not_eq_true'] at hGoesOn
      have unpausing : c.Unpausing := by
        rcases apart with h | h | h
        · rw [hGoesOn] at h
          cases h
        · rw [hConcurrent] at h
          cases h
        · exact h
      rw [runTogether_eq_direct mirrors tireless unlimited unpausing, hGoesOn]
    · rw [runItems_eq_direct mirrors tireless unlimited]
  obtain ⟨reports, w', hItems⟩ := runItems_ends tireless c.stopOnError 0 s.items w
  have hDirect : d.runScript c.stopOnError s w = (.ok (.ofItems reports), w') := by
    rw [Direct.runScript, run_bind_of_ok hItems]
    rfl
  exact ⟨.ofItems reports, w', by rw [hSame, hDirect], hDirect⟩

/-- A handler that stops the run in the course of a comparison. -/
def halting : Direct Bool :=
  { handler := fun call stopped =>
      { outcome := .returned (.text call.command)
        records := [.executor .debug call.command]
        state := stopped || call.command == "COMPARE" }
    signal := fun stopped => (stopped, stopped) }

/-- The same handler, which pauses before a comparison stops the run. -/
def haltingLater : Rounds Bool :=
  { handler := fun call stopped =>
      { pending := .pause (· || call.command == "COMPARE") fun _ =>
          Pending.after (.reply (.returned (.text call.command))) 1
        records := [.executor .debug call.command]
        state := stopped }
    signal := fun stopped => (stopped, stopped)
    stopOnError := true }

/-- The same handler, which never pauses. -/
def haltingAtOnce : Rounds Bool :=
  { handler := halting.handler.pausing, signal := halting.signal }

theorem mirrors_haltingLater : haltingLater.Mirrors halting :=
  ⟨fun _ _ => rfl, fun _ _ => .pause (.pause .reply), rfl, rfl⟩

theorem mirrors_haltingAtOnce : haltingAtOnce.Mirrors halting :=
  ⟨fun _ _ => rfl, fun _ _ => .reply, rfl, rfl⟩

theorem runScript_lockstep_teaScript :
    (∃ report w', haltingLater.runScript Direct.teaScript ⟨false, []⟩ = (.ok report, w') ∧
      halting.runScript true Direct.teaScript ⟨false, []⟩ = (.ok report, w') ∧
      report.items.map ItemReport.status = [.aborted, .skipped]) ∧
    ∃ report w', haltingAtOnce.runScript Direct.teaScript ⟨false, []⟩ = (.ok report, w') ∧
      halting.runScript false Direct.teaScript ⟨false, []⟩ = (.ok report, w') ∧
      report.items.map ItemReport.status = [.aborted, .aborted] := by
  have hTireless : halting.Tireless := fun _ _ _ h => by cases h
  have hStatus (stopOnError : Bool) :
      (halting.runScript stopOnError Direct.teaScript ⟨false, []⟩).1.toOption.map
        (fun report => report.items.map ItemReport.status) =
        some [.aborted, if stopOnError then .skipped else .aborted] := by
    revert stopOnError
    decide +kernel
  constructor
  · obtain ⟨report, w', hRounds, hDirect⟩ := runScript_lockstep mirrors_haltingLater hTireless rfl
      (.inl rfl) Direct.teaScript ⟨false, []⟩
    have hItems := hStatus true
    rw [show halting.runScript true Direct.teaScript ⟨false, []⟩ = _ from hDirect] at hItems
    exact ⟨report, w', hRounds, hDirect, Option.some.inj hItems⟩
  · obtain ⟨report, w', hRounds, hDirect⟩ := runScript_lockstep mirrors_haltingAtOnce hTireless rfl
      (.inr (.inr fun _ _ => ⟨_, rfl⟩)) Direct.teaScript ⟨false, []⟩
    have hItems := hStatus false
    rw [show halting.runScript false Direct.teaScript ⟨false, []⟩ = _ from hDirect] at hItems
    exact ⟨report, w', hRounds, hDirect, Option.some.inj hItems⟩

end Rounds

end Directive
