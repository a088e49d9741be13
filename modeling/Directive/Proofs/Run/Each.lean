import Directive.Proofs.Run.Runs

/-!
# What holds of each item of a run

What a run says of an item depends on the events of this item only. If it holds of each item by itself,
or of tasks side by side, then it holds of the items of every run.

* `Unaffected`: the other items may do what they like;
* `ItemReport.Ran`, `Ran`: an item was run, or skipped behind one that aborted;
* `Direct.ran_of_runScript`, `Rounds.ran_of_runScript`: the items of a script.
-/

namespace Directive

open Program (ofItem)

variable {σ : Type}

/-- Events in which an item has no part change nothing about what holds of its report. -/
structure Unaffected (P : Nat → Node → Journal → ItemReport → Prop) : Prop where
  append : ∀ {item n events more report}, more.Skips item → P item n events report →
    P item n (events ++ more) report
  prepend : ∀ {item n events front report}, front.Skips item → P item n events report →
    P item n (front ++ events) report

/-- What became of an item of a run behind the reports `before`: it was run, with a report of which `P`
holds, or it was skipped behind an item that aborted. -/
inductive ItemReport.Ran (P : Nat → Node → Journal → ItemReport → Prop) (stopOnError : Bool)
    (item : Nat) (n : Node) (events : Journal) (before : List ItemReport) : ItemReport → Prop
  | run {report : ItemReport} (holds : P item n events report) :
      Ran P stopOnError item n events before report
  | skipped {earlier : ItemReport} (stops : stopOnError = true) (skips : events.Skips item)
      (behind : earlier ∈ before) (aborted : earlier.status = .aborted) :
      Ran P stopOnError item n events before (.skipped item n)

/-- The reports on some items, the first of which has the given position. -/
structure Ran (P : Nat → Node → Journal → ItemReport → Prop) (stopOnError : Bool) (position : Nat)
    (nodes : List Node) (events : Journal) (reports : List ItemReport) : Prop where
  length : reports.length = nodes.length
  each : ∀ k n (report : ItemReport), nodes[k]? = some n → reports[k]? = some report →
    report.Ran P stopOnError (position + k) n events (reports.take k)
  others : ∀ other, other < position ∨ position + nodes.length ≤ other → events.Skips other

variable {P : Nat → Node → Journal → ItemReport → Prop}

/-- What holds of the report on each item that is run by itself holds of items one after another. -/
theorem ran_of_inOrder {runItem : Nat → Node → Run σ ItemReport} {stopOnError : Bool}
    (unaffected : Unaffected P)
    (hItem : ∀ position n w report w', runItem position n w = (.ok report, w') → ∃ events,
      w'.journal = w.journal ++ events ∧ P position n events report ∧
        ∀ other, other ≠ position → events.Skips other)
    {position : Nat} {nodes : List Node} {reports : List ItemReport} {w w' : World σ}
    (h : inOrder runItem stopOnError position nodes w = (.ok reports, w')) :
    ∃ events, w'.journal = w.journal ++ events ∧
      Ran P stopOnError position nodes events reports := by
  induction nodes generalizing position reports w with
  | nil =>
    cases h
    exact ⟨[], (List.append_nil _).symm, rfl, by simp, fun _ _ => .nil _⟩
  | cons node nodes ih =>
    rw [inOrder] at h
    obtain ⟨first, w₁, hFirst, h⟩ := ok_of_run_bind h
    obtain ⟨events, hJournal, holds, hOthers⟩ := hItem _ _ _ _ _ hFirst
    split at h
    · rename_i hStops
      cases h
      obtain ⟨stops, hAborted⟩ := Bool.and_eq_true_iff.mp hStops
      refine ⟨events, hJournal, by simp, fun k n report hNode hReport => ?_, fun other hOther => ?_⟩
      · cases k with
        | zero =>
          cases hNode
          cases hReport
          exact .run holds
        | succ k =>
          rw [List.getElem?_cons_succ] at hNode hReport
          rw [Direct.eq_skipped_of_getElem? hNode hReport]
          exact .skipped stops (hOthers _ (by omega)) List.mem_cons_self
            (of_decide_eq_true hAborted)
      · rw [List.length_cons] at hOther
        exact hOthers other (by omega)
    · obtain ⟨rest, w₂, hRest, h⟩ := ok_of_run_bind h
      cases h
      obtain ⟨later, hLater, hLength, hEach, hOthers'⟩ := ih hRest
      refine ⟨events ++ later, by rw [hLater, hJournal, List.append_assoc],
        congrArg (· + 1) hLength, fun k n report hNode hReport => ?_, fun other hOther => ?_⟩
      · cases k with
        | zero =>
          cases hNode
          cases hReport
          exact .run (unaffected.append (hOthers' _ (.inl (Nat.lt_succ_self _))) holds)
        | succ k =>
          have hSkips : events.Skips (position + (k + 1)) := hOthers _ (by omega)
          have hRan := hEach k n report hNode hReport
          rw [Nat.add_right_comm] at hRan
          cases hRan with
          | run holds => exact .run (unaffected.prepend hSkips holds)
          | skipped stops skips behind aborted =>
            exact .skipped stops (hSkips.append skips) (List.mem_cons_of_mem _ behind) aborted
      · rw [List.length_cons] at hOther
        exact (hOthers other (by omega)).append (hOthers' other (by omega))

theorem Direct.ran_of_runScript {d : Direct σ} (unaffected : Unaffected P)
    (hItem : ∀ {item n events report exchanges},
      (ofItem d.resolver item n).Ends (exchanges.map replied) (.ok report) →
        Journal.Shows item exchanges events → P item n events report)
    {stopOnError : Bool} {s : Script} {report : Report} {w w' : World σ}
    (h : d.runScript stopOnError s w = (.ok report, w')) : ∃ events,
      w'.journal = w.journal ++ events ∧ report = .ofItems report.items ∧
        Ran P stopOnError 0 s.items events report.items := by
  obtain ⟨reports, w₁, hItems, h⟩ := ok_of_run_bind h
  cases h
  rw [runItems_eq_inOrder] at hItems
  have hEach : ∀ position n w report w', d.runItem position n w = (.ok report, w') → ∃ events,
      w'.journal = w.journal ++ events ∧ P position n events report ∧
        ∀ other, other ≠ position → events.Skips other := by
    intro position n w report w' h
    obtain ⟨exchanges, events, hEnds, hJournal, hShows⟩ := d.runItem_ends h
    exact ⟨events, hJournal, hItem hEnds hShows, hShows.others⟩
  obtain ⟨events, hJournal, hRan⟩ := ran_of_inOrder unaffected hEach hItems
  exact ⟨events, hJournal, rfl, hRan⟩

namespace Rounds

variable {c : Rounds σ}

/-- Whatever tasks stand side by side, `Q` holds of what each of them ends with. -/
def EndsWith (c : Rounds σ) (Q : Nat → Task ItemReport → Journal → ItemReport → Prop) : Prop :=
  ∀ (tasks : List (Nat × Task ItemReport)) (programs : Nat → Task ItemReport),
    (tasks.map Prod.fst).Nodup → (∀ t ∈ tasks, t.2 = programs t.1) →
    ∀ {results : List ItemReport} {w w' : World σ}, c.together tasks w = (.ok results, w') →
      ∃ events, w'.journal = w.journal ++ events ∧
        ((tasks.map Prod.fst).Forall₂ (fun item report => Q item (programs item) events report)
          results) ∧
        ∀ other, other ∉ tasks.map Prod.fst → events.Skips other

variable {Q : Nat → Task ItemReport → Journal → ItemReport → Prop}

theorem EndsWith.runItem (hEnds : c.EndsWith Q) {item : Nat} {n : Node} {report : ItemReport}
    {w w' : World σ} (h : c.runItem item n w = (.ok report, w')) : ∃ events,
      w'.journal = w.journal ++ events ∧ Q item (ofItem c.resolver item n) events report ∧
        ∀ other, other ≠ item → events.Skips other := by
  rw [Rounds.runItem] at h
  obtain ⟨results, w₁, hTogether, h⟩ := ok_of_run_bind h
  obtain ⟨events, hJournal, hEach, hOthers⟩ := hEnds _ (fun k => ofItem c.resolver k n) (by simp)
    (List.forall_mem_singleton.mpr rfl) hTogether
  cases hEach with
  | cons hFirst hRest =>
    cases hRest
    cases h
    exact ⟨events, hJournal, hFirst, fun other hOther => hOthers other (by simpa using hOther)⟩

theorem EndsWith.runTogether (hEnds : c.EndsWith Q) (stopOnError : Bool) {nodes : List Node}
    {reports : List ItemReport} {w w' : World σ} (h : c.runTogether nodes w = (.ok reports, w')) :
    ∃ events, w'.journal = w.journal ++ events ∧
      Ran (fun item n => Q item (ofItem c.resolver item n)) stopOnError 0 nodes events reports := by
  obtain ⟨hItems, hTasks⟩ := tasks_mapIdx c.resolver nodes rfl
  obtain ⟨events, hJournal, hEach, hOthers⟩ :=
    hEnds _ (programAt c.resolver nodes) (hItems ▸ List.nodup_range) hTasks h
  rw [hItems] at hEach hOthers
  refine ⟨events, hJournal, by rw [← hEach.length_eq, List.length_range], ?_, ?_⟩
  · intro k n report hNode hReport
    have hHolds := of_forall₂_range hEach hReport
    rw [programAt_eq c.resolver hNode] at hHolds
    rw [Nat.zero_add]
    exact .run hHolds
  · intro other hOther
    refine hOthers other ?_
    rw [List.mem_range]
    omega

theorem ran_of_runScript (hEnds : c.EndsWith Q)
    (unaffected : Unaffected fun item n => Q item (ofItem c.resolver item n)) {s : Script}
    {report : Report} {w w' : World σ} (h : c.runScript s w = (.ok report, w')) : ∃ events,
      w'.journal = w.journal ++ events ∧ report = .ofItems report.items ∧
        Ran (fun item n => Q item (ofItem c.resolver item n)) c.stopOnError 0 s.items events
          report.items := by
  rw [runScript] at h
  split at h
  · obtain ⟨reports, w₁, hItems, h⟩ := ok_of_run_bind h
    cases h
    obtain ⟨events, hJournal, hRan⟩ := hEnds.runTogether c.stopOnError hItems
    exact ⟨events, hJournal, rfl, hRan⟩
  · obtain ⟨reports, w₁, hItems, h⟩ := ok_of_run_bind h
    cases h
    rw [runItems_eq_inOrder] at hItems
    obtain ⟨events, hJournal, hRan⟩ :=
      ran_of_inOrder unaffected (fun _ _ _ _ _ h => hEnds.runItem h) hItems
    exact ⟨events, hJournal, rfl, hRan⟩

end Rounds

end Directive
