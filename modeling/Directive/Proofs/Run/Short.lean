import Directive.Proofs.Run.Cancel

/-!
# Runs that stop on the first error

Up to the first item that aborts, a run that stops there is the run that goes on.

* `CutAt`, `inOrder_cut`: items one after another, in both ways;
* `Rounds.runItem_stopping`: in rounds, an item is run in the same way in both;
* `Runner.OneByOne`, `Runner.run_eq_inOrder`: the runs that take items one after another;
* `Runner.run_cut_short`: such a run that stops on the first error is the one that goes on, cut short.
-/

namespace Directive

/-- The reports on items that are skipped, the first of which has the given position. -/
def skippedFrom (position : Nat) (nodes : List Node) : List ItemReport :=
  nodes.mapIdx fun k n => .skipped (position + k) n

/-- The item at a position is the first that aborted. -/
def FirstAborted (reports : List ItemReport) (i : Nat) : Prop :=
  (∃ report, reports[i]? = some report ∧ report.status = .aborted) ∧
    ∀ earlier ∈ reports.take i, earlier.status ≠ .aborted

namespace Journal

/-- The calls of all items, in the order in which they were entered. -/
def entries : Journal → List (Nat × Call)
  | [] => []
  | .entered item call :: es => (item, call) :: entries es
  | _ :: es => entries es

theorem entries_append (es fs : Journal) : entries (es ++ fs) = entries es ++ entries fs := by
  induction es with
  | nil => rfl
  | cons e es ih =>
    rcases e with record | ⟨item, call⟩ | ⟨item, outcome⟩
    · exact ih
    · exact congrArg ((item, call) :: ·) ih
    · exact ih

theorem mem_entries_iff {item : Nat} {call : Call} {es : Journal} :
    (item, call) ∈ entries es ↔ call ∈ calls item es := by
  induction es with
  | nil => simp [entries, calls]
  | cons e es ih =>
    rcases e with record | ⟨i, c⟩ | ⟨i, outcome⟩
    · exact ih
    · rw [entries, calls, List.mem_cons, ih]
      by_cases same : i = item
      · simp [same]
      · simp [same, Ne.symm same]
    · exact ih

theorem item_of_mem_entries {es : Journal} {x : Nat × Call} (h : x ∈ entries es) :
    ¬ es.Skips x.1 := by
  intro skips
  have hCall := mem_entries_iff.mp h
  rw [skips.1] at hCall
  cases hCall

/-- From the same start, one journal shows what another one does of the items up to a position, and
ends there. -/
def CutBehind (i : Nat) (start short long : Journal) : Prop :=
  ∃ events later, short = start ++ events ∧ long = short ++ later ∧
    events.entries = (events ++ later).entries.filter (·.1 ≤ i)

theorem cutBehind_of_skips {i : Nat} {start events later : Journal}
    (early : ∀ other, i < other → events.Skips other)
    (late : ∀ other, other ≤ i → later.Skips other) :
    CutBehind i start (start ++ events) (start ++ events ++ later) := by
  refine ⟨events, later, rfl, rfl, ?_⟩
  have hEvents : events.entries.filter (·.1 ≤ i) = events.entries := by
    apply List.filter_eq_self.mpr
    intro x hx
    by_contra hBehind
    exact item_of_mem_entries hx (early x.1 (by simpa using hBehind))
  have hLater : later.entries.filter (·.1 ≤ i) = [] := by
    apply List.filter_eq_nil_iff.mpr
    intro x hx hBefore
    exact item_of_mem_entries hx (late x.1 (by simpa using hBefore))
  rw [entries_append, List.filter_append, hEvents, hLater, List.append_nil]

end Journal

variable {σ : Type}

theorem run_bind_congr {α β : Type} {x y : Run σ α} {w : World σ} (h : x w = y w)
    (f : α → Run σ β) : (x >>= f) w = (y >>= f) w := by
  change ExceptT.bindCont f (x w).1 (x w).2 = _
  rw [h]
  rfl

section InOrder

variable {r : Resolver} {runItem : Nat → Node → Run σ ItemReport}

/-- Items up to the first that aborts, with their reports: the run that stops skips the others, and the
run that goes on does so from there. -/
structure CutAt (runItem : Nat → Node → Run σ ItemReport) (position : Nat) (nodes : List Node)
    (w : World σ) (reports : List ItemReport) (w₁ : World σ) : Prop where
  stops : inOrder runItem true position nodes w = (.ok (reports ++
    skippedFrom (position + reports.length) (nodes.drop reports.length)), w₁)
  goesOn : inOrder runItem false position nodes w =
    (inOrder runItem false (position + reports.length) (nodes.drop reports.length) >>=
      fun more => pure (reports ++ more) : Run σ _) w₁
  first : ∃ i, reports.length = i + 1 ∧ FirstAborted reports i
  events : ∃ events, w₁.journal = w.journal ++ events ∧
    ∀ other, other < position ∨ position + reports.length ≤ other → events.Skips other

theorem inOrder_cons_of_error {position : Nat} {node : Node} {e : Escape} {w w₁ : World σ}
    (h : runItem position node w = (.error e, w₁)) (stopOnError : Bool) (nodes : List Node) :
    inOrder runItem stopOnError position (node :: nodes) w = (.error e, w₁) := by
  rw [inOrder]
  exact run_bind_of_error h _

theorem inOrder_cons_of_aborted {position : Nat} {node : Node} {report : ItemReport} {w w₁ : World σ}
    (h : runItem position node w = (.ok report, w₁)) (aborted : report.status = .aborted)
    (nodes : List Node) : inOrder runItem true position (node :: nodes) w =
      (.ok (report :: skippedFrom (position + 1) nodes), w₁) := by
  rw [inOrder, run_bind_of_ok h, aborted]
  rfl

/-- Behind an item that has not aborted, or in a run that goes on anyway, the next one is run. -/
theorem inOrder_cons_of_goesOn {position : Nat} {node : Node} {report : ItemReport} {w w₁ : World σ}
    (h : runItem position node w = (.ok report, w₁)) {stopOnError : Bool}
    (goesOn : stopOnError = false ∨ report.status ≠ .aborted) (nodes : List Node) :
    inOrder runItem stopOnError position (node :: nodes) w =
      (inOrder runItem stopOnError (position + 1) nodes >>= fun more => pure (report :: more)) w₁ := by
  have hGoesOn : ¬ (stopOnError && decide (report.status = .aborted)) = true := by
    simpa [or_iff_not_imp_left] using goesOn
  rw [inOrder, run_bind_of_ok h, if_neg hGoesOn]

theorem FirstAborted.cons {report : ItemReport} {reports : List ItemReport} {i : Nat}
    (goesOn : report.status ≠ .aborted) (h : FirstAborted reports i) :
    FirstAborted (report :: reports) (i + 1) := by
  obtain ⟨aborted, before⟩ := h
  refine ⟨aborted, ?_⟩
  rw [List.take_succ_cons, List.forall_mem_cons]
  exact ⟨goesOn, before⟩

theorem FirstAborted.unique {reports : List ItemReport} {i j : Nat} (h : FirstAborted reports i)
    (h' : FirstAborted reports j) : i = j := by
  obtain ⟨⟨report, hReport, aborted⟩, before⟩ := h
  obtain ⟨⟨report', hReport', aborted'⟩, before'⟩ := h'
  apply Nat.le_antisymm
  · by_contra hBehind
    have hMem : report' ∈ reports.take i :=
      List.mem_of_getElem? ((List.getElem?_take_of_lt (by omega)).trans hReport')
    exact before report' hMem aborted'
  · by_contra hBehind
    have hMem : report ∈ reports.take j :=
      List.mem_of_getElem? ((List.getElem?_take_of_lt (by omega)).trans hReport)
    exact before' report hMem aborted

theorem FirstAborted.append {reports : List ItemReport} {i : Nat} (h : FirstAborted reports i)
    (more : List ItemReport) : FirstAborted (reports ++ more) i := by
  obtain ⟨⟨report, hReport, aborted⟩, before⟩ := h
  obtain ⟨hBound, -⟩ := List.getElem?_eq_some_iff.mp hReport
  refine ⟨⟨report, ?_, aborted⟩, ?_⟩
  · rw [List.getElem?_append_left hBound]
    exact hReport
  · rw [List.take_append_of_le_length (Nat.le_of_lt hBound)]
    exact before

theorem CutAt.here
    (faithful : ∀ position n w, ItemFaithful r position n w (runItem position n w))
    {position : Nat} {node : Node}
    {report : ItemReport} {w w₁ : World σ} (h : runItem position node w = (.ok report, w₁))
    (aborted : report.status = .aborted) (nodes : List Node) :
    CutAt runItem position (node :: nodes) w [report] w₁ where
  stops := inOrder_cons_of_aborted h aborted nodes
  goesOn := inOrder_cons_of_goesOn h (.inl rfl) nodes
  first := ⟨0, rfl, ⟨report, rfl, aborted⟩, List.forall_mem_nil _⟩
  events := by
    obtain ⟨events, hJournal, -, hOthers⟩ := faithful position node w
    rw [h] at hJournal
    refine ⟨events, hJournal, ?_⟩
    intro other hOther
    rw [List.length_singleton] at hOther
    apply hOthers
    omega

theorem CutAt.cons
    (faithful : ∀ position n w, ItemFaithful r position n w (runItem position n w))
    {position : Nat} {node : Node} {nodes : List Node}
    {report : ItemReport} {reports : List ItemReport} {w w₁ w₂ : World σ}
    (h : runItem position node w = (.ok report, w₁)) (goesOn : report.status ≠ .aborted)
    (cut : CutAt runItem (position + 1) nodes w₁ reports w₂) :
    CutAt runItem position (node :: nodes) w (report :: reports) w₂ where
  stops := by
    rw [inOrder_cons_of_goesOn h (.inr goesOn), run_bind_of_ok cut.stops, List.length_cons,
      List.drop_succ_cons, Nat.add_right_comm]
    rfl
  goesOn := by
    have hRest := cut.goesOn
    rw [inOrder_cons_of_goesOn h (.inl rfl), List.length_cons, List.drop_succ_cons,
      ← Nat.add_assoc, Nat.add_right_comm]
    rcases hMore : inOrder runItem false (position + 1 + reports.length)
      (nodes.drop reports.length) w₂ with ⟨e | more, w₃⟩
    · rw [run_bind_of_error hMore] at hRest
      rw [run_bind_of_error hMore, run_bind_of_error hRest]
    · rw [run_bind_of_ok hMore] at hRest
      rw [run_bind_of_ok hMore, run_bind_of_ok hRest]
      rfl
  first := by
    obtain ⟨i, hLength, hFirst⟩ := cut.first
    exact ⟨i + 1, congrArg (· + 1) hLength, hFirst.cons goesOn⟩
  events := by
    obtain ⟨events, hJournal, -, hOthers⟩ := faithful position node w
    obtain ⟨later, hLater, hOthers'⟩ := cut.events
    rw [h] at hJournal
    refine ⟨events ++ later, by rw [hLater, hJournal, List.append_assoc], ?_⟩
    intro other hOther
    rw [List.length_cons] at hOther
    have hEvents : events.Skips other := hOthers other (by omega)
    exact hEvents.append (hOthers' other (by omega))

/-- Items one after another: if none aborts, then it makes no difference whether a run stops on the
first error; else the run that stops is cut at the first item that aborts. -/
theorem inOrder_cut
    (faithful : ∀ position n w, ItemFaithful r position n w (runItem position n w))
    (position : Nat) (nodes : List Node) (w : World σ) :
    (inOrder runItem true position nodes w = inOrder runItem false position nodes w ∧
      ∀ reports, (inOrder runItem false position nodes w).1 = .ok reports →
        ∀ report ∈ reports, report.status ≠ .aborted) ∨
    ∃ reports w₁, CutAt runItem position nodes w reports w₁ := by
  induction nodes generalizing position w with
  | nil =>
    left
    refine ⟨rfl, ?_⟩
    intro reports hReports
    cases hReports
    exact List.forall_mem_nil _
  | cons node nodes ih =>
    rcases hRan : runItem position node w with ⟨e | report, w₁⟩
    · left
      rw [inOrder_cons_of_error hRan, inOrder_cons_of_error hRan]
      refine ⟨rfl, ?_⟩
      intro reports hReports
      cases hReports
    by_cases aborted : report.status = .aborted
    · right
      exact ⟨[report], w₁, .here faithful hRan aborted nodes⟩
    obtain ⟨hSame, hNone⟩ | ⟨reports, w₂, cut⟩ := ih (position + 1) w₁
    · left
      rw [inOrder_cons_of_goesOn hRan (.inr aborted), inOrder_cons_of_goesOn hRan (.inl rfl)]
      rcases hRest : inOrder runItem false (position + 1) nodes w₁ with ⟨e | more, w₂⟩
      · rw [run_bind_of_error (hSame.trans hRest), run_bind_of_error hRest]
        refine ⟨rfl, ?_⟩
        intro reports hReports
        cases hReports
      · rw [run_bind_of_ok (hSame.trans hRest), run_bind_of_ok hRest]
        refine ⟨rfl, ?_⟩
        intro reports hReports
        cases hReports
        rw [hRest] at hNone
        exact List.forall_mem_cons.mpr ⟨aborted, hNone more rfl⟩
    · right
      exact ⟨report :: reports, w₂, cut.cons faithful hRan aborted⟩

/-- The reports up to the first item that aborts are those of the run that goes on. -/
theorem CutAt.prefix_of_ok {position : Nat} {nodes : List Node} {reports all : List ItemReport}
    {w w₁ w' : World σ} (cut : CutAt runItem position nodes w reports w₁)
    (h : inOrder runItem false position nodes w = (.ok all, w')) : reports <+: all := by
  rw [cut.goesOn] at h
  obtain ⟨more, w₂, -, hAll⟩ := ok_of_run_bind h
  cases hAll
  exact List.prefix_append reports more

/-- Behind the first item that aborts, the run that goes on adds events of later items only. -/
theorem CutAt.journal
    (faithful : ∀ position n w, ItemFaithful r position n w (runItem position n w))
    {nodes : List Node} {reports : List ItemReport} {i : Nat} {w w₁ : World σ}
    (cut : CutAt runItem 0 nodes w reports w₁) (length : reports.length = i + 1) :
    Journal.CutBehind i w.journal w₁.journal (inOrder runItem false 0 nodes w).2.journal := by
  obtain ⟨events, hJournal, hEvents⟩ := cut.events
  obtain ⟨later, hLater, shown⟩ := inOrder_faithful faithful false (0 + reports.length)
    (nodes.drop reports.length) w₁
  have hLong : (inOrder runItem false 0 nodes w).2.journal = w.journal ++ events ++ later := by
    rw [cut.goesOn, ← hJournal, ← hLater]
    rcases hMore : inOrder runItem false (0 + reports.length) (nodes.drop reports.length) w₁ with
      ⟨e | more, w₂⟩
    · rw [run_bind_of_error hMore]
    · rw [run_bind_of_ok hMore]
      rfl
  rw [hLong, hJournal]
  apply Journal.cutBehind_of_skips
  · intro other hOther
    apply hEvents
    omega
  · intro other hOther
    apply shown.others
    omega

end InOrder

namespace Rounds

/-- The same runs, which stop on the first error or do not. -/
def stopping (c : Rounds σ) (stopOnError : Bool) : Rounds σ := { c with stopOnError }

variable {c : Rounds σ} {stopOnError : Bool} {α : Type}

theorem follow_stopping_of {item : Nat} {next : Reply → Program α}
    (same : ∀ r w, (c.stopping stopOnError).settle item (next r) w = c.settle item (next r) w)
    (call : Call) (p : Pending σ) (w : World σ) :
    (c.stopping stopOnError).follow item call next p w = c.follow item call next p w := by
  simp only [follow, same]
  rfl

theorem settle_stopping (item : Nat) (p : Program α) (w : World σ) :
    (c.stopping stopOnError).settle item p w = c.settle item p w := by
  induction p generalizing w with
  | done a => rfl
  | note records next ih => exact ih (w.note records)
  | look next ih => exact ih (c.signal w.outer).1 { w with outer := (c.signal w.outer).2 }
  | call call next ih =>
    cases hLimit : c.limit with
    | none =>
      have hUnlimited : (c.stopping stopOnError).limit = none := hLimit
      rw [settle_call hUnlimited, settle_call hLimit]
      exact follow_stopping_of ih call _ _
    | some seconds =>
      have hLimited : (c.stopping stopOnError).limit = some seconds := hLimit
      rw [settle, settle, hLimited, hLimit]

theorem follow_stopping (item : Nat) (call : Call) (next : Reply → Program α) (p : Pending σ)
    (w : World σ) :
    (c.stopping stopOnError).follow item call next p w = c.follow item call next p w :=
  follow_stopping_of (fun r w => settle_stopping item (next r) w) call p w

theorem resume_stopping (item : Nat) (p : Process σ α) (w : World σ) :
    (c.stopping stopOnError).resume item p w = c.resume item p w := by
  rcases p with a | ⟨call, _ | (o | ⟨touch, more⟩ | _) | ⟨_ | n, r⟩, next⟩
  · rfl
  · exact follow_stopping item call next _ _
  · exact follow_stopping item call next (.reply o) w
  · exact follow_stopping item call next (more w.outer) { w with outer := touch w.outer }
  · rfl
  · exact settle_stopping item (next r) w
  · rfl

theorem relieve_stopping (r : Reply) (item : Nat) (p : Process σ α) (w : World σ) :
    (c.stopping stopOnError).relieve r item p w = c.relieve r item p w := by
  rcases p with a | ⟨call, _ | (o | ⟨touch, more⟩ | _) | ⟨n, reply⟩, next⟩
  · rfl
  · rfl
  · rfl
  · rfl
  · exact settle_stopping item (next r) w
  · rfl

theorem launch_stopping (tasks : List (Nat × Program α)) (w : World σ) :
    (c.stopping stopOnError).launch tasks w = c.launch tasks w := by
  induction tasks generalizing w with
  | nil => rfl
  | cons t tasks ih => simp only [launch, settle_stopping, ih]

theorem drive_stopping (js : List (Job σ α)) (w : World σ) :
    (c.stopping stopOnError).drive js w = c.drive js w := by
  have hResume : (c.stopping stopOnError).resume = c.resume (α := α) :=
    funext fun item => funext fun p => funext (resume_stopping item p)
  have hRelieve : (c.stopping stopOnError).relieve = c.relieve (α := α) :=
    funext fun r => funext fun item => funext fun p => funext (relieve_stopping r item p)
  fun_induction drive c js w with
  | case1 js w moves ih =>
    rw [drive, if_pos moves, hResume]
    exact ih
  | case2 js w still relief =>
    have hRelief : (c.stopping stopOnError).relief = none := relief
    rw [drive, if_neg still, hRelief]
  | case3 js w still r relief hangs ih =>
    have hRelief : (c.stopping stopOnError).relief = some r := relief
    rw [drive, if_neg still, hRelief]
    dsimp only
    rw [if_pos hangs, hRelieve]
    exact ih
  | case4 js w still r relief hangs =>
    have hRelief : (c.stopping stopOnError).relief = some r := relief
    rw [drive, if_neg still, hRelief]
    dsimp only
    rw [if_neg hangs]

/-- An item is run in the same way whether or not the run stops on the first error. -/
theorem runItem_stopping : (c.stopping stopOnError).runItem = c.runItem := by
  have hTogether (tasks : List (Nat × Task ItemReport)) :
      (c.stopping stopOnError).together tasks = c.together tasks := by
    funext w
    simp only [together]
    rw [drive_stopping, launch_stopping]
  funext position n
  rw [runItem, runItem, hTogether]
  rfl

end Rounds

namespace Runner

/-- Items are run one after another, whether or not the run stops on the first error. -/
def OneByOne : Runner σ → Prop
  | direct _ _ => True
  | rounds c => c.concurrent = false

/-- The same runs, which stop on the first error or do not. -/
def stopping : Runner σ → Bool → Runner σ
  | direct d _, stopOnError => direct d stopOnError
  | rounds c, stopOnError => rounds (c.stopping stopOnError)

def runItem : Runner σ → Nat → Node → Run σ ItemReport
  | direct d _ => d.runItem
  | rounds c => c.runItem

variable {x : Runner σ}

theorem run_eq_inOrder (oneByOne : x.OneByOne) (stopOnError : Bool) (s : Script) :
    (x.stopping stopOnError).run s =
      inOrder x.runItem stopOnError 0 s.items >>= fun reports => pure (.ofItems reports) := by
  cases x with
  | direct d =>
    change d.runScript stopOnError s = _
    rw [Direct.runScript, Direct.runItems_eq_inOrder]
    rfl
  | rounds c =>
    have hOneByOne : ¬ ((c.stopping stopOnError).concurrent &&
        !(c.stopping stopOnError).stopOnError) = true := by
      rw [show (c.stopping stopOnError).concurrent = false from oneByOne]
      exact Bool.false_ne_true
    change (c.stopping stopOnError).runScript s = _
    rw [Rounds.runScript, if_neg hOneByOne, Rounds.runItems_eq_inOrder, Rounds.runItem_stopping]
    rfl

theorem runItem_faithful (x : Runner σ) (position : Nat) (n : Node) (w : World σ) :
    ItemFaithful x.resolver position n w (x.runItem position n w) := by
  cases x with
  | direct d => exact d.runItem_faithful position n w
  | rounds c => exact c.runItem_faithful position n w

/-- **A run that stops on the first error is the run that goes on, cut short.** Items are run one after
another. If the run that goes on comes to a report on which no item has aborted, then the other run is
the same. Else it comes to the same reports up to the first item that aborted, and skips the items
behind it; its journal is where the other one was then, and its calls are just those that the other run
makes for these items. A run that goes on may also be ended without a report: either so is the other
run, or it has stopped at an item before. -/
theorem run_cut_short (oneByOne : x.OneByOne) (s : Script) (w : World σ) :
    (∀ report w', (x.stopping false).run s w = (.ok report, w') →
      ((∀ item ∈ report.items, item.status ≠ .aborted) →
        (x.stopping true).run s w = (.ok report, w')) ∧
      ∀ i, FirstAborted report.items i → ∃ w₁,
        (x.stopping true).run s w = (.ok (.ofItems
          (report.items.take (i + 1) ++ skippedFrom (i + 1) (s.items.drop (i + 1)))), w₁) ∧
        Journal.CutBehind i w.journal w₁.journal w'.journal) ∧
    ∀ e w', (x.stopping false).run s w = (.error e, w') →
      (x.stopping true).run s w = (.error e, w') ∨
      ∃ i reports w₁, reports.length = i + 1 ∧ FirstAborted reports i ∧
        (x.stopping true).run s w =
          (.ok (.ofItems (reports ++ skippedFrom (i + 1) (s.items.drop (i + 1)))), w₁) ∧
        Journal.CutBehind i w.journal w₁.journal w'.journal := by
  rw [run_eq_inOrder oneByOne, run_eq_inOrder oneByOne]
  obtain ⟨hSame, hNone⟩ | ⟨reports, w₁, cut⟩ := inOrder_cut x.runItem_faithful 0 s.items w
  · have hRun := run_bind_congr hSame fun reports => (pure (.ofItems reports) : Run σ Report)
    constructor
    · intro report w' ran
      refine ⟨fun _ => hRun.trans ran, ?_⟩
      rintro i ⟨⟨item, hItem, aborted⟩, -⟩
      obtain ⟨reports, w₂, hReports, hReport⟩ := ok_of_run_bind ran
      cases hReport
      rw [hReports] at hNone
      exact absurd aborted (hNone reports rfl item (List.mem_of_getElem? hItem))
    · intro e w' ran
      left
      exact hRun.trans ran
  · obtain ⟨i, hLength, hFirst⟩ := cut.first
    have hJournal := cut.journal x.runItem_faithful hLength
    have hStops := cut.stops
    rw [hLength, Nat.zero_add] at hStops
    constructor
    · intro report w' ran
      obtain ⟨all, w₂, hAll, hReport⟩ := ok_of_run_bind ran
      cases hReport
      obtain ⟨more, rfl⟩ := cut.prefix_of_ok hAll
      rw [hAll] at hJournal
      constructor
      · intro noneAborted
        obtain ⟨report, hReport, aborted⟩ := hFirst.1
        exact absurd aborted
          (noneAborted report (List.mem_append_left more (List.mem_of_getElem? hReport)))
      · intro j first
        obtain rfl : i = j := (hFirst.append more).unique first
        refine ⟨w₁, ?_, hJournal⟩
        rw [run_bind_of_ok hStops]
        change _ = (Except.ok (Report.ofItems ((reports ++ more).take (i + 1) ++ _)), w₁)
        rw [← hLength, List.take_left]
        rfl
    · intro e w' ran
      right
      refine ⟨i, reports, w₁, hLength, hFirst, run_bind_of_ok hStops _, ?_⟩
      rcases hAll : inOrder x.runItem false 0 s.items w with ⟨e' | all, w₂⟩
      · rw [run_bind_of_error hAll] at ran
        cases ran
        rwa [hAll] at hJournal
      · rw [run_bind_of_ok hAll] at ran
        cases ran

/-- A handler that counts its calls and fails on the second one. -/
def failingOnce : Direct Nat :=
  { handler := fun call n =>
      { outcome := if n = 1 then .threw (.failure ⟨.value, []⟩) else .returned (.text call.command)
        state := n + 1 }
    signal := .never }

/-- The item in the middle aborts. The calls of the one behind it are missing in the shorter run. -/
theorem run_cut_short_of_failingOnce :
    ∃ s report w' w₁, Script.ofText .builtin
        "SEARCH: \"tea\"\nCHAIN:\n  SEARCH: \"cup\"\n  SEARCH: \"pot\"\nSEARCH: \"milk\"\n" = .ok s ∧
      (direct failingOnce false).run s ⟨0, []⟩ = (.ok report, w') ∧
      report.items.map ItemReport.status = [.completed, .aborted, .completed] ∧
      (direct failingOnce true).run s ⟨0, []⟩ = (.ok (.ofItems
        (report.items.take 2 ++ skippedFrom 2 (s.items.drop 2))), w₁) ∧
      Journal.CutBehind 1 [] w₁.journal w'.journal := by
  generalize hText : "SEARCH: \"tea\"\nCHAIN:\n  SEARCH: \"cup\"\n  SEARCH: \"pot\"\n" ++
    "SEARCH: \"milk\"\n" = text
  have hRan : ((Script.ofText .builtin text).toOption.bind fun s =>
      ((direct failingOnce false).run s ⟨0, []⟩).1.toOption.map fun report =>
        report.items.map ItemReport.status) = some [.completed, .aborted, .completed] := by
    subst hText
    decide +kernel
  obtain ⟨s, hParsed, hRan⟩ := Upshot.exists_of_bind hRan
  rcases hRun : (direct failingOnce false).run s ⟨0, []⟩ with ⟨e | report, w'⟩
  · simp [hRun, Except.toOption] at hRan
  have hStatus : report.items.map ItemReport.status = [.completed, .aborted, .completed] := by
    simpa [hRun, Except.toOption] using hRan
  have hFirst : FirstAborted report.items 1 := by
    obtain ⟨first, others, hItems, hCompleted, hOthers⟩ := List.map_eq_cons_iff.mp hStatus
    obtain ⟨second, last, rfl, hAborted, -⟩ := List.map_eq_cons_iff.mp hOthers
    rw [hItems]
    refine ⟨⟨second, rfl, hAborted⟩, List.forall_mem_singleton.mpr ?_⟩
    rw [hCompleted]
    decide
  obtain ⟨hReports, -⟩ := @run_cut_short _ (direct failingOnce false) trivial s ⟨0, []⟩
  obtain ⟨-, hCut⟩ := hReports report w' hRun
  obtain ⟨w₁, hStops, hJournal⟩ := hCut 1 hFirst
  subst hText
  exact ⟨s, report, w', w₁, hParsed, hRun, hStatus, hStops, hJournal⟩

end Runner

end Directive
