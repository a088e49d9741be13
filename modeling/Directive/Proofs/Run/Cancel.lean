import Directive.Proofs.Run.Extent
import Directive.Proofs.Run.Guard
import Directive.Proofs.Run.Lockstep

/-!
# Runs that an event stops

* `Runner`: a way to run scripts, with a look at the stop signal in front of every step;
* `Runner.AgreesUnset`: handlers that do the same until the event is set;
* `Runner.run_heeds_event`: nothing is called once the event is set, and how far each item gets.
-/

namespace Directive

/-- A way to run scripts: directly, or in rounds. -/
inductive Runner (σ : Type)
  | direct (d : Direct σ) (stopOnError : Bool)
  | rounds (c : Rounds σ)

namespace Runner

variable {σ : Type}

def run : Runner σ → Script → Run σ Report
  | direct d stopOnError, s => d.runScript stopOnError s
  | rounds c, s => c.runScript s

def signal : Runner σ → Signal σ
  | direct d _ => d.signal
  | rounds c => c.signal

def resolver : Runner σ → Resolver
  | direct d _ => d.resolver
  | rounds c => c.resolver

def stopOnError : Runner σ → Bool
  | direct _ stopOnError => stopOnError
  | rounds c => c.stopOnError

/-- A call may take as long as it likes. -/
def Unlimited : Runner σ → Prop
  | direct _ _ => True
  | rounds c => c.limit = none

/-- The second way to run scripts differs from the first only in what its handler does with calls
while the event is set. -/
inductive AgreesUnset (isSet : σ → Bool) : Runner σ → Runner σ → Prop
  | direct {d : Direct σ} {stopOnError : Bool} {handler : Handler σ}
      (same : ∀ call s, isSet s = false → handler call s = d.handler call s) :
      AgreesUnset isSet (.direct d stopOnError) (.direct (d.handledBy handler) stopOnError)
  | rounds {c : Rounds σ} {handler : PausingHandler σ}
      (same : ∀ call s, isSet s = false → handler call s = c.handler call s) :
      AgreesUnset isSet (.rounds c) (.rounds (c.handledBy handler))

theorem AgreesUnset.run_eq {isSet : σ → Bool} {x y : Runner σ} (h : x.AgreesUnset isSet y)
    (tells : x.signal.Tells isSet) (unlimited : x.Unlimited) (s : Script) : y.run s = x.run s := by
  cases h with
  | direct same => exact Direct.runScript_unset tells same _ s
  | rounds same => exact Rounds.runScript_unset unlimited tells same s

theorem run_earned {x : Runner σ} (unlimited : x.Unlimited) {s : Script} {report : Report}
    {w w' : World σ} (h : x.run s w = (.ok report, w')) : ∃ events,
      w'.journal = w.journal ++ events ∧
        Earned x.resolver x.stopOnError 0 s.items events report.items := by
  cases x with
  | direct d stopOnError => exact d.runScript_earned h
  | rounds c => exact Rounds.runScript_earned unlimited h

/-- **An event that stops a run.** Say the stop signal tells whether an event is set, and calls have no
limit. In a run of a parsed script that comes to a report, no call is entered while the event is set:
whatever the handler would do then, the run is the same. Every call that was entered has ended. An item
whose commands were all called and returned has completed; any other was skipped, or it has aborted
because of a call or a reference of its own, or at the first step that it had not entered, and keeps
what the steps before it returned. -/
theorem run_heeds_event {g : Grammar} {text : String} {s : Script}
    (parsed : Script.ofText g text = .ok s) {x : Runner σ} {isSet : σ → Bool}
    (tells : x.signal.Tells isSet) (unlimited : x.Unlimited) {w w' : World σ} {report : Report}
    (ran : x.run s w = (.ok report, w')) :
    (∀ y, x.AgreesUnset isSet y → y.run s w = (.ok report, w')) ∧
      ∃ events, w'.journal = w.journal ++ events ∧ report.items.length = s.items.length ∧
        ∀ k n itemReport, s.items[k]? = some n → report.items[k]? = some itemReport →
          ∃ exchanges, events.calls k = exchanges.map Prod.fst ∧
            events.outcomes k = exchanges.map Prod.snd ∧
              Extent x.stopOnError n exchanges itemReport := by
  refine ⟨fun y h => by rw [h.run_eq tells unlimited, ran], ?_⟩
  obtain ⟨events, hJournal, hLength, hEach⟩ := run_earned unlimited ran
  refine ⟨events, hJournal, hLength, fun k n itemReport hNode hReport => ?_⟩
  have hSound : Sound none [n] := by
    obtain ⟨before, rest, hItems⟩ := List.append_of_mem (List.mem_of_getElem? hNode)
    have hAll := sound_of_ofText parsed
    rw [hItems] at hAll
    exact hAll.drop.first
  have hEarned := hEach k n itemReport hNode hReport
  rw [Nat.zero_add] at hEarned
  exact hEarned.extent hSound

theorem run_heeds_event_of_halting :
    ∃ s report w', Script.ofText .builtin ("CHAIN:\n  SEARCH: \"tea\"\n  COMPARE: \"cup\" \"pot\"\n" ++
        "  CHAIN:\n    SEARCH: \"pot\"\nSEARCH: \"milk\"\n") = .ok s ∧
      (direct Rounds.halting false).run s ⟨false, []⟩ = (.ok report, w') ∧
      report.items.map (fun i => (i.status, i.steps.length, i.failedStep)) =
        [(.aborted, 2, some 2), (.aborted, 0, none)] ∧
      (∀ y, (direct Rounds.halting false).AgreesUnset id y → y.run s ⟨false, []⟩ = (.ok report, w')) ∧
      ∃ events : Journal, w'.journal = [] ++ events ∧ report.items.length = s.items.length ∧
        ∀ k n itemReport, s.items[k]? = some n → report.items[k]? = some itemReport →
          ∃ exchanges, events.calls k = exchanges.map Prod.fst ∧
            events.outcomes k = exchanges.map Prod.snd ∧ Extent false n exchanges itemReport := by
  generalize hText : "CHAIN:\n  SEARCH: \"tea\"\n  COMPARE: \"cup\" \"pot\"\n" ++
    "  CHAIN:\n    SEARCH: \"pot\"\nSEARCH: \"milk\"\n" = text
  have hRan : ((Script.ofText .builtin text).toOption.bind fun s =>
      ((direct Rounds.halting false).run s ⟨false, []⟩).1.toOption.map fun report =>
        report.items.map fun i => (i.status, i.steps.length, i.failedStep)) =
      some [(.aborted, 2, some 2), (.aborted, 0, none)] := by
    subst hText
    decide +kernel
  obtain ⟨s, hParsed, hRan⟩ := Upshot.exists_of_bind hRan
  rcases hRun : (direct Rounds.halting false).run s ⟨false, []⟩ with ⟨e | report, w'⟩
  · simp [hRun, Except.toOption] at hRan
  have hItems : report.items.map (fun i => (i.status, i.steps.length, i.failedStep)) =
      [(.aborted, 2, some 2), (.aborted, 0, none)] := by
    simpa [hRun, Except.toOption] using hRan
  have hTells : (direct Rounds.halting false).signal.Tells id := fun _ => rfl
  obtain ⟨hUnset, hExtent⟩ := run_heeds_event hParsed hTells trivial hRun
  exact ⟨s, report, w', hParsed, hRun, hItems, hUnset, hExtent⟩

end Runner

end Directive
