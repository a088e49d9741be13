import Directive.Proofs.Run.Each

/-!
# What a journal shows of an item, and no more

Where calls have no limit, what an item has been told of its calls is exactly what the journal shows
of it.

* `ItemReport.Earned`: a report with the calls behind it;
* `Rounds.Tracked`: an item in the course of a run in rounds;
* `Direct.runScript_earned`, `Rounds.runScript_earned`: the reports of a run.
-/

namespace Directive

open Program (Comes Ends ofItem ItemAgrees Agrees stepEnd)

variable {σ α : Type}

/-- A report on an item: it was skipped, as a run may do that stops on the first error, or its program
came to this after the calls that the journal shows, each with its outcome. -/
inductive ItemReport.Earned (r : Resolver) (stopOnError : Bool) (item : Nat) (n : Node)
    (events : Journal) : ItemReport → Prop
  | skipped (stops : stopOnError = true) (skips : events.Skips item) :
      Earned r stopOnError item n events (.skipped item n)
  | ended {exchanges : List (Call × Outcome)} {report : ItemReport}
      (ends : (ofItem r item n).Ends (exchanges.map replied) (.ok report))
      (calls : events.calls item = exchanges.map Prod.fst)
      (outcomes : events.outcomes item = exchanges.map Prod.snd) :
      Earned r stopOnError item n events report

/-- The reports on some items, the first of which has the given position. -/
structure Earned (r : Resolver) (stopOnError : Bool) (position : Nat) (nodes : List Node)
    (events : Journal) (reports : List ItemReport) : Prop where
  length : reports.length = nodes.length
  each : ∀ k n (report : ItemReport), nodes[k]? = some n → reports[k]? = some report →
    report.Earned r stopOnError (position + k) n events

namespace ItemReport.Earned

variable {r : Resolver} {stopOnError : Bool} {item : Nat} {n : Node} {events more : Journal}
  {report : ItemReport}

theorem append (h : report.Earned r stopOnError item n events) (hMore : more.Skips item) :
    report.Earned r stopOnError item n (events ++ more) := by
  cases h with
  | skipped stops skips => exact .skipped stops (skips.append hMore)
  | ended ends calls outcomes =>
    refine .ended ends ?_ ?_
    · rw [Journal.calls_append, hMore.1, List.append_nil, calls]
    · rw [Journal.outcomes_append, hMore.2, List.append_nil, outcomes]

theorem prepend (h : report.Earned r stopOnError item n events) (hFront : more.Skips item) :
    report.Earned r stopOnError item n (more ++ events) := by
  cases h with
  | skipped stops skips => exact .skipped stops (hFront.append skips)
  | ended ends calls outcomes =>
    refine .ended ends ?_ ?_
    · rw [Journal.calls_append, hFront.1, List.nil_append, calls]
    · rw [Journal.outcomes_append, hFront.2, List.nil_append, outcomes]

end ItemReport.Earned

theorem unaffected_earned (r : Resolver) (stopOnError : Bool) :
    Unaffected (ItemReport.Earned r stopOnError) :=
  ⟨fun skips h => h.append skips, fun skips h => h.prepend skips⟩

theorem Ran.earned {P : Nat → Node → Journal → ItemReport → Prop} {r : Resolver}
    {stopOnError : Bool} {position : Nat} {nodes : List Node} {events : Journal}
    {reports : List ItemReport} (h : Ran P stopOnError position nodes events reports)
    (hEarned : ∀ item n report, P item n events report →
      report.Earned r stopOnError item n events) :
    Earned r stopOnError position nodes events reports := by
  refine ⟨h.length, fun k n report hNode hReport => ?_⟩
  cases h.each k n report hNode hReport with
  | run holds => exact hEarned _ n report holds
  | skipped stops skips _ _ => exact .skipped stops skips

theorem Direct.runScript_earned {d : Direct σ} {stopOnError : Bool} {s : Script} {report : Report}
    {w w' : World σ} (h : d.runScript stopOnError s w = (.ok report, w')) : ∃ events,
      w'.journal = w.journal ++ events ∧
        Earned d.resolver stopOnError 0 s.items events report.items := by
  obtain ⟨events, hJournal, -, hRan⟩ := ran_of_runScript (unaffected_earned d.resolver stopOnError)
    (fun hEnds hShows => .ended hEnds hShows.calls hShows.outcomes) h
  exact ⟨events, hJournal, hRan.earned fun _ _ _ earned => earned⟩

/-- A call and how it ended, or what its item hears if the run was called off instead. -/
def heardOf (x : Call × Option Outcome) : Call × Reply := (x.1, x.2.elim .interrupted .outcome)

/-- An item that comes to a report has heard how each of its calls ended. -/
theorem outcomes_of_ofItem {r : Resolver} {position : Nat} {n : Node}
    {told : List (Call × Option Outcome)} {report : ItemReport}
    (h : (ofItem r position n).Ends (told.map heardOf) (.ok report)) :
    ∃ exchanges : List (Call × Outcome), told = exchanges.map fun x => (x.1, some x.2) := by
  have hSome : ∀ x ∈ told, x.2.isSome = true := by
    rintro ⟨call, o⟩ hx
    cases o with
    | some o => rfl
    | none =>
      obtain ⟨e, course, agrees⟩ := Program.course_of_ofItem h
      have hCall : heardOf (call, none) ∈ told.map heardOf := List.mem_map_of_mem hx
      obtain ⟨i, rfl⟩ := course.failed_of_mem hCall (by rintro _ ⟨⟩)
      cases agrees with
      | completed agrees => cases agrees
      | aborted agrees =>
        cases agrees with
        | failed ends => cases ends
  clear h
  induction told with
  | nil => exact ⟨[], rfl⟩
  | cons x told ih =>
    obtain ⟨hFirst, hOthers⟩ := List.forall_mem_cons.mp hSome
    obtain ⟨exchanges, rfl⟩ := ih hOthers
    obtain ⟨call, o⟩ := x
    obtain ⟨o, rfl⟩ := Option.isSome_iff_exists.mp hFirst
    exact ⟨(call, o) :: exchanges, rfl⟩

namespace Rounds

/-- An item whose process has made the calls that the journal shows, and has heard how they ended,
but for the one that it waits for. -/
inductive Tracked (programs : Nat → Program α) (item : Nat) (events : Journal) : Process σ α → Prop
  | ended {told : List (Call × Option Outcome)} {a : α}
      (way : (programs item).Comes (told.map heardOf) (.done a))
      (counts : events.Counts item told) : Tracked programs item events (.ended a)
  | waiting {told : List (Call × Option Outcome)} {call : Call} {p : Pending σ}
      {next : Reply → Program α}
      (way : (programs item).Comes (told.map heardOf) (.call call next))
      (counts : events.Counts item (told ++ [(call, none)])) :
      Tracked programs item events (.waiting call (.working p) next)

variable {c : Rounds σ} {programs : Nat → Program α} {item : Nat} {before : Journal}
  {told : List (Call × Option Outcome)}

theorem Tracked.stays {more : Journal} {p : Process σ α} (skips : more.Skips item)
    (h : Tracked programs item before p) : Tracked programs item (before ++ more) p := by
  cases h with
  | ended way counts => exact .ended way (counts.append skips)
  | waiting way counts => exact .waiting way (counts.append skips)

/-- An item goes on with what it hears of its call. -/
theorem comes_heard {call : Call} {next : Reply → Program α}
    (way : (programs item).Comes (told.map heardOf) (.call call next)) (o : Option Outcome) :
    (programs item).Comes ((told ++ [(call, o)]).map heardOf) (next (heardOf (call, o)).2) := by
  rw [List.map_append]
  exact way.called _

theorem tracked_follow (unlimited : c.limit = none) {call : Call} {next : Reply → Program α}
    (way : (programs item).Comes (told.map heardOf) (.call call next))
    (counts : before.Counts item (told ++ [(call, none)]))
    (hNext : ∀ o events w, (programs item).Comes ((told ++ [(call, some o)]).map heardOf)
      (next (.outcome o)) → events.Counts item (told ++ [(call, some o)]) →
        Turned (Tracked programs) item events w (c.settle item (next (.outcome o)) w))
    (p : Pending σ) (w : World σ) :
    Turned (Tracked programs) item before w (c.follow item call next p w) := by
  cases p with
  | pause touch more => exact .still (.waiting way counts) w
  | hang => exact .still (.waiting way counts) w
  | reply o =>
    have hOthers : ∀ other, other ≠ item → Journal.Skips other [.left item o] :=
      fun other hOther => .left hOther.symm o
    rw [follow, unlimited]
    exact (hNext o _ _ (comes_heard way (some o)) (counts.left o)).prepend rfl hOthers

theorem tracked_settle (unlimited : c.limit = none) {q : Program α}
    (way : (programs item).Comes (told.map heardOf) q) (counts : before.Counts item told)
    (w : World σ) : Turned (Tracked programs) item before w (c.settle item q w) := by
  induction q generalizing before told w with
  | done a => exact .still (.ended way counts) w
  | note records next ih =>
    have hNoted := ih way.noted (counts.append (.noted item records)) (w.note records)
    exact hNoted.prepend rfl fun other _ => .noted other records
  | look next ih => exact ih _ (way.looked _) counts _
  | call call next ih =>
    have hEntered := tracked_follow unlimited way (counts.entered call
      (c.handler call w.outer).records) (fun o events w way counts => ih _ way counts w)
      (c.enter item call w).1 (c.enter item call w).2
    rw [settle_call unlimited]
    exact hEntered.prepend (enter_journal c item call w) fun other hOther =>
      .entered hOther.symm call (.noted other _)

theorem tracked_resume (unlimited : c.limit = none) {p : Process σ α}
    (h : Tracked programs item before p) (w : World σ) :
    Turned (Tracked programs) item before w (c.resume item p w) := by
  cases h with
  | ended way counts => exact .still (.ended way counts) w
  | @waiting told call p next way counts =>
    have hFollow := tracked_follow unlimited way counts
      fun o events w way counts => tracked_settle unlimited way counts w
    cases p with
    | reply o => exact hFollow (.reply o) w
    | pause touch more => exact hFollow (more w.outer) { w with outer := touch w.outer }
    | hang => exact .still (.waiting way counts) w

/-- Without a limit, a call that never ends is only answered as the run is called off. -/
theorem tracked_relieve (unlimited : c.limit = none) {r : Reply} (relief : c.relief = some r)
    {p : Process σ α} (h : Tracked programs item before p) (w : World σ) :
    Turned (Tracked programs) item before w (c.relieve r item p w) := by
  have hReply : r = .interrupted := by
    unfold Rounds.relief at relief
    split at relief
    · exact (Option.some.inj relief).symm
    · rw [unlimited] at relief
      cases relief
  subst hReply
  cases h with
  | ended way counts => exact .still (.ended way counts) w
  | @waiting told call p next way counts =>
    cases p with
    | reply o => exact .still (.waiting way counts) w
    | pause touch more => exact .still (.waiting way counts) w
    | hang => exact tracked_settle unlimited (comes_heard way none) counts w

theorem together_tracked (unlimited : c.limit = none) (tasks : List (Nat × Task α))
    (programs : Nat → Task α) (distinct : (tasks.map Prod.fst).Nodup)
    (hTasks : ∀ t ∈ tasks, t.2 = programs t.1) {results : List α} {w w' : World σ}
    (h : c.together tasks w = (.ok results, w')) : ∃ events, w'.journal = w.journal ++ events ∧
      ((tasks.map Prod.fst).Forall₂ (fun item a => ∃ told : List (Call × Option Outcome),
        (programs item).Ends (told.map heardOf) (.ok a) ∧ events.Counts item told) results) ∧
      ∀ other, other ∉ tasks.map Prod.fst → events.Skips other := by
  have hFirst : ∀ t ∈ tasks, ∀ before w, before.Skips t.1 →
      Turned (Tracked programs) t.1 before w (c.settle t.1 t.2.run w) := by
    intro t ht before w skips
    have hWay : (programs t.1).Comes (([] : List (Call × Option Outcome)).map heardOf) t.2 :=
      hTasks t ht ▸ .here
    exact tracked_settle unlimited hWay (.of_skips skips) w
  refine forall₂_together Tracked.stays (fun _ _ _ w h => tracked_resume unlimited h w)
    (fun _ _ _ _ w relief h => tracked_relieve unlimited relief h w) ?_ distinct hFirst h
  intro item events a h
  cases h with
  | ended way counts => exact ⟨_, way.ends, counts⟩

theorem earned_of_counts {r : Resolver} {stopOnError : Bool} {n : Node} {events : Journal}
    {report : ItemReport} (ends : (ofItem r item n).Ends (told.map heardOf) (.ok report))
    (counts : events.Counts item told) : report.Earned r stopOnError item n events := by
  obtain ⟨exchanges, rfl⟩ := outcomes_of_ofItem ends
  rw [List.map_map] at ends
  refine .ended ends ?_ ?_
  · rw [counts.calls, List.map_map]
    rfl
  · rw [counts.outcomes, List.filterMap_map]
    exact congrFun List.filterMap_eq_map exchanges

theorem runScript_earned (unlimited : c.limit = none) {s : Script} {report : Report}
    {w w' : World σ} (h : c.runScript s w = (.ok report, w')) : ∃ events,
      w'.journal = w.journal ++ events ∧
        Earned c.resolver c.stopOnError 0 s.items events report.items := by
  have hEnds : c.EndsWith fun item program events report => ∃ told : List (Call × Option Outcome),
      program.Ends (told.map heardOf) (.ok report) ∧ events.Counts item told :=
    fun tasks programs distinct hTasks => together_tracked unlimited tasks programs distinct hTasks
  have hUnaffected : Unaffected fun item n events report => ∃ told : List (Call × Option Outcome),
      (ofItem c.resolver item n).Ends (told.map heardOf) (.ok report) ∧ events.Counts item told :=
    ⟨fun skips ⟨told, ends, counts⟩ => ⟨told, ends, counts.append skips⟩,
      fun skips ⟨told, ends, counts⟩ => ⟨told, ends, counts.prepend skips⟩⟩
  obtain ⟨events, hJournal, -, hRan⟩ := ran_of_runScript hEnds hUnaffected h
  exact ⟨events, hJournal, hRan.earned fun _ _ _ ⟨_, ends, counts⟩ => earned_of_counts ends counts⟩

end Rounds

end Directive
