import Directive.Proofs.Run.Each

/-!
# What items of runs have heard

An item that comes to its report has heard of its calls what the journal shows, under a limit or
without one.

* `ItemReport.Attended`: a report with what its item has heard;
* `Direct.runScript_attended`, `Rounds.runScript_attended`: the reports of a run, each of which the
  program of its item ended with;
* `Script.Runs.attended`: so it is in every run.
-/

namespace Directive

open Program (Comes Ends ofItem)

variable {σ α : Type}

/-- A report that the program of an item ended with, told of its calls what the journal shows. -/
def ItemReport.Attended (r : Resolver) (item : Nat) (n : Node) (events : Journal)
    (report : ItemReport) : Prop :=
  ∃ calls, (ofItem r item n).Ends calls (.ok report) ∧ events.Heard item calls

theorem unaffected_attended (r : Resolver) : Unaffected (ItemReport.Attended r) :=
  ⟨fun skips ⟨calls, ends, heard⟩ => ⟨calls, ends, heard.append skips⟩,
    fun skips ⟨calls, ends, heard⟩ => ⟨calls, ends, heard.prepend skips⟩⟩

/-- Each item of a direct run has heard what the journal shows. -/
theorem Direct.runScript_attended {d : Direct σ} {stopOnError : Bool} {s : Script} {report : Report}
    {w w' : World σ} (h : d.runScript stopOnError s w = (.ok report, w')) : ∃ events,
      w'.journal = w.journal ++ events ∧ report = .ofItems report.items ∧
        Ran (ItemReport.Attended d.resolver) stopOnError 0 s.items events report.items :=
  ran_of_runScript (unaffected_attended d.resolver)
    (fun hEnds hShows => ⟨_, hEnds, .of_exchanged ⟨hShows.calls, hShows.outcomes⟩⟩) h

namespace Rounds

variable {c : Rounds σ}

theorem together_attended (tasks : List (Nat × Task α)) (programs : Nat → Task α)
    (distinct : (tasks.map Prod.fst).Nodup) (hTasks : ∀ t ∈ tasks, t.2 = programs t.1)
    {results : List α} {w w' : World σ} (h : c.together tasks w = (.ok results, w')) :
    ∃ events, w'.journal = w.journal ++ events ∧
      ((tasks.map Prod.fst).Forall₂ (fun item a => ∃ calls,
        (programs item).Ends calls (.ok a) ∧ events.Heard item calls) results) ∧
      ∀ other, other ∉ tasks.map Prod.fst → events.Skips other := by
  refine forall₂_together Informed.stays (fun _ _ _ w h => informed_resume h w)
    (fun _ _ _ _ w relief h => informed_relieve relief h w) ?_ distinct (informed_first hTasks) h
  intro item events a h
  cases h with
  | ended told => exact ⟨_, told.way.ends, told.heard⟩

/-- Each item of a run in rounds has heard what the journal shows. -/
theorem runScript_attended {s : Script} {report : Report} {w w' : World σ}
    (h : c.runScript s w = (.ok report, w')) : ∃ events,
      w'.journal = w.journal ++ events ∧ report = .ofItems report.items ∧
        Ran (ItemReport.Attended c.resolver) c.stopOnError 0 s.items events report.items := by
  have hEnds : c.EndsWith fun item program events report => ∃ calls,
      program.Ends calls (.ok report) ∧ events.Heard item calls :=
    fun tasks programs distinct hTasks => together_attended tasks programs distinct hTasks
  exact ran_of_runScript hEnds (unaffected_attended c.resolver) h

end Rounds

/-- Each item of a run that gives a report has heard what the journal shows, or was skipped. -/
theorem Script.Runs.attended {r : Resolver} {s : Script} {report : Report} {events : Journal}
    (h : s.Runs r (.ok report) events) :
    ∃ stopOnError, Ran (ItemReport.Attended r) stopOnError 0 s.items events report.items := by
  cases h with
  | @direct σ d stopOnError w w' _ _ resolver run journal =>
    subst resolver
    obtain ⟨own, hJournal, -, hRan⟩ := Direct.runScript_attended run
    cases List.append_cancel_left (journal.symm.trans hJournal)
    exact ⟨stopOnError, hRan⟩
  | @rounds σ c w w' _ _ resolver run journal =>
    subst resolver
    obtain ⟨own, hJournal, -, hRan⟩ := Rounds.runScript_attended run
    cases List.append_cancel_left (journal.symm.trans hJournal)
    exact ⟨c.stopOnError, hRan⟩

end Directive
