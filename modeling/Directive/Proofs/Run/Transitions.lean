import Directive.Proofs.Run.ExitCode
import Directive.Proofs.Run.Lifecycle

/-!
# Chains in runs

A run changes its chains only in the states that the changes need, whatever the calls of its items come
to, whenever it is told to stop, and wherever it is called off.

* `Program.not_badTransition_of_ofItem`: no way through an item ends with a change in a wrong state;
* `Run.Orderly`: what may end with an error, but not with such a change;
* `Direct.orderly_runScript`, `Rounds.orderly_runScript`: runs of scripts are like this;
* `ChainRun.lifecycle_kept`: the life of a chain, and that runs keep to it.
-/

namespace Directive

open Program (ofItem)

variable {σ α β : Type}

/-- No way through the program of an item ends with a change in a wrong state. -/
theorem Program.not_badTransition_of_ofItem {r : Resolver} {position : Nat} {n : Node}
    {calls : List (Call × Reply)} {b : BadTransition} :
    ¬ (ofItem r position n).Ends calls (.error (.badTransition b)) := by
  intro h
  obtain ⟨e, -, agrees⟩ := course_of_ofItem h
  cases agrees

/-- Runs that do not end because a chain was changed in a wrong state. -/
def Run.Orderly (x : Run σ α) : Prop := ∀ w b, (x w).1 ≠ .error (.badTransition b)

namespace Run

theorem orderly_pure (a : α) : Orderly (pure a : Run σ α) := by
  rintro w b ⟨⟩

theorem orderly_note (records : List Record) : Orderly (note records : Run σ Unit) := by
  rintro w b ⟨⟩

theorem Orderly.bind {x : Run σ α} {f : α → Run σ β} (hx : Orderly x)
    (hf : ∀ a, Orderly (f a)) : Orderly (x >>= f) := by
  intro w b
  rcases hRan : x w with ⟨e | a, w'⟩
  · have hFirst := hx w b
    rw [hRan] at hFirst
    rw [run_bind_of_error hRan]
    rintro ⟨⟩
    exact hFirst rfl
  · rw [run_bind_of_ok hRan]
    exact hf a w' b

theorem orderly_inOrder {runItem : Nat → Node → Run σ ItemReport}
    (hItem : ∀ position n, Orderly (runItem position n)) (stopOnError : Bool) (position : Nat)
    (nodes : List Node) : Orderly (inOrder runItem stopOnError position nodes) := by
  induction nodes generalizing position with
  | nil => exact orderly_pure []
  | cons node nodes ih =>
    rw [inOrder]
    apply (hItem position node).bind
    intro report
    split
    · exact orderly_pure _
    · exact (ih (position + 1)).bind fun reports => orderly_pure _

end Run

open Run (Orderly orderly_pure orderly_note)

namespace Direct

variable (d : Direct σ)

/-- A program that is followed is cut off by a handler that gives up, and by nothing else. -/
theorem orderly_follow (item : Nat) (p : Program α) : Orderly (d.follow item p) := by
  induction p with
  | done a => exact orderly_pure a
  | note records next ih => exact (orderly_note records).bind fun _ => ih
  | look next ih =>
    have hLook : Orderly d.look := by rintro w b ⟨⟩
    exact hLook.bind ih
  | call call next ih =>
    have hEnter : Orderly (d.enter item call) := by rintro w b ⟨⟩
    rw [follow]
    apply hEnter.bind
    intro o
    rcases o with value | (f | f | reasons)
    · exact ih _
    · exact ih _
    · exact ih _
    · rintro w b ⟨⟩

theorem orderly_runItem (position : Nat) (n : Node) : Orderly (d.runItem position n) := by
  intro w b
  rw [← followTask_ofItem, followTask]
  rcases hFollow : d.follow position (ofItem d.resolver position n) w with ⟨e | res, w'⟩
  · have hCut := d.orderly_follow position (ofItem d.resolver position n) w b
    rw [hFollow] at hCut
    rw [run_bind_of_error hFollow]
    rintro ⟨⟩
    exact hCut rfl
  · rw [run_bind_of_ok hFollow]
    obtain ⟨exchanges, -, hEnds, -⟩ := d.ends_of_follow hFollow
    rcases res with e | report
    · rintro ⟨⟩
      exact Program.not_badTransition_of_ofItem hEnds
    · rintro ⟨⟩

theorem orderly_runScript (stopOnError : Bool) (s : Script) :
    Orderly (d.runScript stopOnError s) := by
  have hItems : Orderly (d.runItems stopOnError 0 s.items) := by
    rw [runItems_eq_inOrder]
    exact Run.orderly_inOrder d.orderly_runItem stopOnError 0 s.items
  exact hItems.bind fun reports => orderly_pure _

end Direct

namespace Rounds

variable {c : Rounds σ}

/-- Jobs that give nothing have not all ended, or one of them has ended the run. -/
theorem exists_of_gather {js : List (Job σ (Except Escape α))} {e : Escape}
    (h : gather js = .error e) : e = .stuck ∨ ∃ j ∈ js, j.process = .ended (.error e) := by
  induction js with
  | nil => cases h
  | cons j js ih =>
    obtain ⟨item, process⟩ := j
    rcases process with (first | a) | _
    · cases h
      exact .inr ⟨_, List.mem_cons_self, rfl⟩
    · rcases hRest : gather js with e' | rest
      · rw [gather, hRest] at h
        cases h
        obtain hStuck | ⟨j, hj, hEnded⟩ := ih hRest
        · exact .inl hStuck
        · exact .inr ⟨j, List.mem_cons_of_mem _ hj, hEnded⟩
      · rw [gather, hRest] at h
        cases h
    · cases h
      exact .inl rfl

/-- Tasks side by side are orderly if no way through any of them ends with a change in a wrong state. -/
theorem orderly_together {tasks : List (Nat × Task α)} (programs : Nat → Task α)
    (distinct : (tasks.map Prod.fst).Nodup) (hTasks : ∀ t ∈ tasks, t.2 = programs t.1)
    (hEnds : ∀ item calls b, ¬ (programs item).Ends calls (.error (.badTransition b))) :
    Orderly (c.together tasks) := by
  intro w b hBad
  obtain ⟨js, hGather, events, -, -, hUpkeep, -⟩ :=
    round_together Informed.stays (fun _ _ _ w h => informed_resume h w)
      (fun _ _ _ _ w relief h => informed_relieve relief h w) distinct (informed_first hTasks) w
  rw [hGather] at hBad
  obtain hStuck | ⟨j, hj, hEnded⟩ := exists_of_gather hBad
  · cases hStuck
  · have hInformed := hUpkeep.holds j hj
    rw [hEnded] at hInformed
    cases hInformed with
    | ended told => exact hEnds j.item _ b told.way.ends

variable (c)

theorem orderly_runItem (item : Nat) (n : Node) : Orderly (c.runItem item n) := by
  have hTogether : Orderly (c.together [(item, ofItem c.resolver item n)]) :=
    orderly_together (fun k => ofItem c.resolver k n) (by simp)
      (List.forall_mem_singleton.mpr rfl) fun _ _ _ => Program.not_badTransition_of_ofItem
  apply hTogether.bind
  intro reports
  cases reports with
  | nil => rintro w b ⟨⟩
  | cons report rest => exact orderly_pure report

theorem orderly_runTogether (nodes : List Node) : Orderly (c.runTogether nodes) := by
  obtain ⟨hItems, hTasks⟩ := tasks_mapIdx c.resolver nodes rfl
  exact orderly_together (programAt c.resolver nodes) (hItems ▸ List.nodup_range) hTasks
    fun _ _ _ => Program.not_badTransition_of_ofItem

theorem orderly_runScript (s : Script) : Orderly (c.runScript s) := by
  rw [runScript]
  split
  · exact (c.orderly_runTogether s.items).bind fun reports => orderly_pure _
  · have hItems : Orderly (c.runItems 0 s.items) := by
      rw [runItems_eq_inOrder]
      exact Run.orderly_inOrder c.orderly_runItem c.stopOnError 0 s.items
    exact hItems.bind fun reports => orderly_pure _

end Rounds

namespace Runner

theorem orderly_run (x : Runner σ) (s : Script) : Orderly (x.run s) := by
  cases x with
  | direct d stopOnError => exact d.orderly_runScript stopOnError s
  | rounds c => exact c.orderly_runScript s

theorem orderly_runText (x : Runner σ) (g : Grammar) (text : String) :
    Orderly (x.runText g text) := by
  rcases hText : Script.ofText g text with fault | s | _
  · intro w b
    rw [x.runText_of_error hText]
    rintro ⟨⟩
  · rw [x.runText_of_ok hText]
    exact x.orderly_run s
  · intro w b
    rw [x.runText_of_endless hText]
    rintro ⟨⟩

end Runner

namespace ChainRun

/-- **The life of a chain.** Whatever is tried on a chain, in any order: of the acts that need a state,
those that are done are a start, then advances, then at most one completion or abortion. The chain is
aborted just if it has an error. Its step is that of the last advance that was done, before which it
has started. Once completed or aborted it stays so, with its step and its error. Slots may be stored,
taken and reported in every state. Any other act is done in the state that it needs; in another state
it is refused, with both states, and the chain is as before. The slots are those that were stored since
they were last taken.

Runs keep to this. No way through an item of a script, and so no run, ends with an act refused: whatever
the script, however its calls are answered, and wherever it is told to stop or called off. -/
theorem lifecycle_kept (node : Node) (acts : List ChainAct) :
    Lifecycle node acts ((fresh node).afterAll acts) ∧
      (∀ (r : Resolver) (position : Nat) (n : Node) (calls : List (Call × Reply))
        (b : BadTransition), ¬ (ofItem r position n).Ends calls (.error (.badTransition b))) ∧
      ∀ {σ : Type} (x : Runner σ) (w : World σ) (b : BadTransition),
        (∀ s, (x.run s w).1 ≠ .error (.badTransition b)) ∧
        ∀ g text, (x.runText g text w).1 ≠ .error (.badTransition b) := by
  refine ⟨lifecycle_afterAll node acts, ?_, ?_⟩
  · intro r position n calls b
    exact Program.not_badTransition_of_ofItem
  · intro σ x w b
    exact ⟨fun s => x.orderly_run s w b, fun g text => x.orderly_runText g text w b⟩

/-- A chain whose slots were taken once, and that aborted; acts in a wrong state go before, between and
behind the others. -/
theorem lifecycle_kept_of_refused :
    ∃ (acts : List ChainAct) (first second : Slot) (fault : Fault) (run : ChainRun),
      acts = [.advance 3, .start, .advance 0, .store first, .report 0, .start, .store second,
        .abort fault, .advance 1, .complete] ∧
      run = (fresh (.chain none 1 1 [])).afterAll acts ∧ run.state = .aborted ∧
      (∃ fault, run.error = some fault) ∧ run.step = some 0 ∧ run.table.slots = [second] ∧
      run.attempt .complete = .error ⟨.aborted, .running⟩ ∧
      (∀ more, run.SameStage (run.afterAll more)) ∧ ∃ next, run.attempt .release = .ok next := by
  let first : Slot := ⟨0, "search results", "SEARCH", .null⟩
  let second : Slot := ⟨0, "compare results", "COMPARE", .null⟩
  let fault := (Node.chain none 1 1 []).stopped (some 0)
  let acts : List ChainAct := [.advance 3, .start, .advance 0, .store first, .report 0, .start,
    .store second, .abort fault, .advance 1, .complete]
  obtain ⟨kept, -⟩ := lifecycle_kept (.chain none 1 1 []) acts
  have hAborted : ((fresh (.chain none 1 1 [])).afterAll acts).state = .aborted := rfl
  refine ⟨acts, first, second, fault, _, rfl, rfl, hAborted, kept.aborted.mp hAborted, ?_, ?_, ?_,
    kept.ended (.inr hAborted), ?_⟩
  · exact kept.step
  · exact kept.slots
  · exact (kept.refused .complete .running rfl nofun).1
  · obtain ⟨next, hNext, -⟩ := kept.free .release rfl
    exact ⟨next, hNext⟩

end ChainRun

end Directive
