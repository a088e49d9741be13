import Directive.Proofs.Run.Cancel
import Directive.Proofs.Run.Cause
import Directive.Proofs.Script.Failure

/-!
# What exit codes tell

* `Runner.run_attended`: the reports on the items of a run, however it is set up;
* `FirstFailure`, `Ran.completed_or_firstFailure`: all items have completed, or there is a first one
  that aborted;
* `Report.Tells`, `Runner.runText_tells`: what the exit code of a report says of a run.
-/

namespace Directive

variable {σ : Type}

/-! ### Faults and exit codes -/

theorem FaultKind.exitCode_ne_zero (k : FaultKind) : k.exitCode ≠ 0 := by
  cases k <;> decide

theorem Cause.exitCode_kind (c : Cause) : c.kind.exitCode = if c = .reference then 3 else 4 := by
  cases c <;> rfl

/-- What keeps a text from being a script has the exit code 2 if it is a modifier, and else 1. -/
theorem Fault.OfText.exitCode {f : Fault} {text : String} (h : f.OfText text) :
    f.exitCode = if f.trouble.name = "ValidationError" then 2 else 1 := by
  obtain ⟨trouble, place⟩ := f
  have hName := h.name
  cases trouble with
  | general => simp [Trouble.name] at hName
  | lex => rfl
  | parse => rfl
  | invalid => rfl
  | unresolved => simp [Trouble.name] at hName
  | failed => simp [Trouble.name] at hName
  | cancelled => simp [Trouble.name] at hName

theorem Report.exitCode_of_fault {report : Report} {fault : Fault}
    (h : report.diagnostic = some (.ofFault fault)) : report.exitCode = fault.exitCode := by
  rw [exitCode, h]
  rfl

theorem Report.ok_iff_exitCode (report : Report) : report.ok = true ↔ report.exitCode = 0 := by
  rw [ok, exitCode]
  cases report.diagnostic with
  | none => simp [exitCodeFor]
  | some d => exact iff_of_false (by simp) d.kind.exitCode_ne_zero

/-! ### The first item that aborted -/

theorem Journal.mem_outcomes {item : Nat} {o : Outcome} {events : Journal}
    (h : .left item o ∈ events) : o ∈ events.outcomes item := by
  obtain ⟨front, back, rfl⟩ := List.append_of_mem h
  rw [outcomes_append, outcomes, if_pos rfl]
  exact List.mem_append_right _ List.mem_cons_self

/-- The first item of a run that aborted, at position `k`: what it failed on, and what it reports. -/
structure FirstFailure (r : Resolver) (nodes : List Node) (events : Journal)
    (reports : List ItemReport) (k : Nat) (cause : Cause) (fault : Fault) : Prop where
  aborted : ∃ report, reports[k]? = some report ∧ report.status = .aborted ∧
    report.error = some fault
  first : ∀ earlier ∈ reports.take k, earlier.status = .completed ∧ earlier.error = none
  failed : ∃ n calls, nodes[k]? = some n ∧ ItemFailsOn r cause n calls fault ∧
    events.Conveyed k calls

theorem FirstFailure.diagnostic {r : Resolver} {nodes : List Node} {events : Journal}
    {reports : List ItemReport} {k : Nat} {cause : Cause} {fault : Fault}
    (h : FirstFailure r nodes events reports k cause fault) :
    (Report.ofItems reports).diagnostic = some (.ofFault fault) := by
  obtain ⟨report, hReport, -, hError⟩ := h.aborted
  have hSplit : reports = reports.take k ++ report :: reports.drop (k + 1) := by
    obtain ⟨hk, rfl⟩ := List.getElem?_eq_some_iff.mp hReport
    rw [← List.drop_eq_getElem_cons hk, List.take_append_drop]
  have hHead : (Report.errorsOf reports).head? = some fault := by
    rw [Report.errorsOf, List.head?_filterMap, List.findSome?_eq_some_iff]
    exact ⟨_, _, _, hSplit, hError, fun earlier hEarlier => (h.first earlier hEarlier).2⟩
  rw [Report.ofItems, hHead]
  rfl

theorem FirstFailure.eq_of_aborted {r : Resolver} {nodes : List Node} {events : Journal}
    {reports : List ItemReport} {k j : Nat} {cause : Cause} {fault : Fault} {report : ItemReport}
    (h : FirstFailure r nodes events reports k cause fault) (hReport : reports[j]? = some report)
    (aborted : report.status = .aborted)
    (noneBefore : ∀ earlier ∈ reports.take j, earlier.status ≠ .aborted) : k = j := by
  obtain ⟨first, hFirst, hAborted, -⟩ := h.aborted
  apply Nat.le_antisymm
  · by_contra hLater
    have hMem : report ∈ reports.take k :=
      List.mem_of_getElem? ((List.getElem?_take_of_lt (by omega)).trans hReport)
    rw [(h.first report hMem).1] at aborted
    cases aborted
  · by_contra hLater
    have hMem : first ∈ reports.take j :=
      List.mem_of_getElem? ((List.getElem?_take_of_lt (by omega)).trans hFirst)
    exact noneBefore first hMem hAborted

namespace Ran

variable {r : Resolver} {stopOnError : Bool} {nodes : List Node} {events : Journal}
  {reports : List ItemReport}

theorem item (h : Ran (ItemReport.Attended r) stopOnError 0 nodes events reports) {k : Nat}
    {report : ItemReport} (hReport : reports[k]? = some report) : ∃ n, nodes[k]? = some n ∧
      report.Ran (ItemReport.Attended r) stopOnError k n events (reports.take k) := by
  have hBound : k < nodes.length := by
    rw [← h.length]
    exact (List.getElem?_eq_some_iff.mp hReport).1
  have hItem := h.each k _ report (List.getElem?_eq_getElem hBound) hReport
  rw [Nat.zero_add] at hItem
  exact ⟨_, List.getElem?_eq_getElem hBound, hItem⟩

/-- An item behind others that have completed was run, since only one that aborted has others
skipped. -/
theorem completed_or_failed (h : Ran (ItemReport.Attended r) stopOnError 0 nodes events reports)
    {k : Nat} {report : ItemReport} (hReport : reports[k]? = some report)
    (first : ∀ earlier ∈ reports.take k, earlier.status = .completed ∧ earlier.error = none) :
    report.status = .completed ∧ report.error = none ∨
      ∃ cause fault, FirstFailure r nodes events reports k cause fault := by
  obtain ⟨n, hNode, hItem⟩ := h.item hReport
  cases hItem with
  | run attended =>
    obtain ⟨calls, hEnds, hHeard⟩ := attended
    obtain hCompleted | ⟨hAborted, cause, fault, hError, hFails⟩ := completed_or_failsOn hEnds
    · exact .inl hCompleted
    · exact .inr ⟨cause, fault, ⟨report, hReport, hAborted, hError⟩, first, n, calls, hNode,
        hFails, hHeard.conveyed⟩
  | skipped _ _ behind aborted =>
    rw [(first _ behind).1] at aborted
    cases aborted

/-- The items of a run have completed, all of them, or there is a first one that aborted. -/
theorem completed_or_firstFailure
    (h : Ran (ItemReport.Attended r) stopOnError 0 nodes events reports) :
    (∀ report ∈ reports, report.status = .completed ∧ report.error = none) ∨
      ∃ k cause fault, FirstFailure r nodes events reports k cause fault := by
  by_cases hFailure : ∃ k cause fault, FirstFailure r nodes events reports k cause fault
  · exact .inr hFailure
  · refine .inl ?_
    have hBefore (k : Nat) : ∀ report ∈ reports.take k,
        report.status = .completed ∧ report.error = none := by
      induction k with
      | zero => simp
      | succ k ih =>
        intro report hReport
        rw [List.take_add_one, List.mem_append, Option.mem_toList] at hReport
        obtain hEarlier | hLast := hReport
        · exact ih report hEarlier
        · exact (h.completed_or_failed hLast ih).resolve_right fun hFirst => hFailure ⟨k, hFirst⟩
    have hAll := hBefore reports.length
    rwa [List.take_length] at hAll

/-- The exit code tells whether all items have completed, and else what the first one failed on that
aborted. -/
theorem exitCode_ofItems (h : Ran (ItemReport.Attended r) stopOnError 0 nodes events reports) :
    ((Report.ofItems reports).exitCode = 0 ∧ ∀ report ∈ reports, report.status = .completed) ∨
      ∃ k cause fault, FirstFailure r nodes events reports k cause fault ∧
        (Report.ofItems reports).exitCode = if cause = .reference then 3 else 4 := by
  obtain hCompleted | ⟨k, cause, fault, hFirst⟩ := h.completed_or_firstFailure
  · have hNone : Report.errorsOf reports = [] :=
      List.filterMap_eq_nil_iff.mpr fun report hReport => (hCompleted report hReport).2
    refine .inl ⟨?_, fun report hReport => (hCompleted report hReport).1⟩
    rw [Report.exitCode, Report.ofItems, hNone]
    rfl
  · obtain ⟨n, calls, -, hFails, -⟩ := hFirst.failed
    refine .inr ⟨k, cause, fault, hFirst, ?_⟩
    rw [Report.exitCode_of_fault hFirst.diagnostic, Fault.exitCode, hFails.kind,
      cause.exitCode_kind]

theorem diagnostic_of_aborted
    (h : Ran (ItemReport.Attended r) stopOnError 0 nodes events reports) {k : Nat}
    {report : ItemReport} {fault : Fault} (hReport : reports[k]? = some report)
    (aborted : report.status = .aborted) (error : report.error = some fault)
    (noneBefore : ∀ earlier ∈ reports.take k, earlier.status ≠ .aborted) :
    (Report.ofItems reports).diagnostic = some (.ofFault fault) := by
  obtain hCompleted | ⟨j, cause, other, hFirst⟩ := h.completed_or_firstFailure
  · rw [(hCompleted report (List.mem_of_getElem? hReport)).1] at aborted
    cases aborted
  · obtain rfl := hFirst.eq_of_aborted hReport aborted noneBefore
    obtain ⟨same, hSame, -, hError⟩ := hFirst.aborted
    cases hReport.symm.trans hSame
    cases error.symm.trans hError
    exact hFirst.diagnostic

/-- Whatever a handler throws, it is an item that aborts with a fault of an execution. -/
theorem aborted_of_left (h : Ran (ItemReport.Attended r) stopOnError 0 nodes events reports)
    {item : Nat} {t : Thrown} (threw : .left item (.threw t) ∈ events) : ∃ report fault,
      reports[item]? = some report ∧ report.status = .aborted ∧ report.error = some fault ∧
        fault.kind = .execution := by
  have hOutcome := Journal.mem_outcomes threw
  have hTakesPart : ¬events.Skips item := by
    intro skips
    rw [skips.2] at hOutcome
    cases hOutcome
  have hBound : item < reports.length := by
    rw [h.length]
    by_contra hOther
    exact hTakesPart (h.others item (by omega))
  have hReport := List.getElem?_eq_getElem hBound
  obtain ⟨n, -, hItem⟩ := h.item hReport
  generalize reports[item] = report at hReport hItem
  cases hItem with
  | run attended =>
    obtain ⟨hAborted, fault, hError, hKind⟩ := aborted_of_threw attended hOutcome
    exact ⟨report, fault, hReport, hAborted, hError, hKind⟩
  | skipped _ skips _ _ => exact absurd skips hTakesPart

end Ran

/-! ### Runs -/

namespace Runner

def runText : Runner σ → Grammar → String → Run σ Report
  | direct d stopOnError => d.runText stopOnError
  | rounds c => c.runText

theorem runText_of_ok (x : Runner σ) {g : Grammar} {text : String} {s : Script}
    (parsed : Script.ofText g text = .ok s) : x.runText g text = x.run s := by
  cases x with
  | direct d stopOnError => rw [runText, Direct.runText, parsed, run]
  | rounds c => rw [runText, Rounds.runText, parsed, run]

theorem runText_of_error (x : Runner σ) {g : Grammar} {text : String} {fault : Fault}
    (rejected : Script.ofText g text = .error fault) (w : World σ) :
    x.runText g text w = (.ok (.ofRejection fault), w.note [.rejected fault.message]) := by
  cases x with
  | direct d stopOnError =>
    rw [runText, Direct.runText, rejected]
    rfl
  | rounds c =>
    rw [runText, Rounds.runText, rejected]
    rfl

theorem runText_of_endless (x : Runner σ) {g : Grammar} {text : String}
    (endless : Script.ofText g text = .endless) (w : World σ) :
    x.runText g text w = (.error .stuck, w) := by
  cases x with
  | direct d stopOnError =>
    rw [runText, Direct.runText, endless]
    rfl
  | rounds c =>
    rw [runText, Rounds.runText, endless]
    rfl

theorem run_attended {x : Runner σ} {s : Script} {report : Report} {w w' : World σ}
    (h : x.run s w = (.ok report, w')) : ∃ events, w'.journal = w.journal ++ events ∧
      report = .ofItems report.items ∧
        Ran (ItemReport.Attended x.resolver) x.stopOnError 0 s.items events report.items := by
  cases x with
  | direct d stopOnError => exact Direct.runScript_attended h
  | rounds c => exact Rounds.runScript_attended h

end Runner

/-! ### What the exit code says -/

/-- What the exit code of a report says of the run of a text, by what the run added to the journal. -/
structure Report.Tells (r : Resolver) (g : Grammar) (text : String) (events : Journal)
    (report : Report) : Prop where
  ok : report.ok = true ↔ report.exitCode = 0
  completed : report.exitCode = 0 ↔ ∃ s, Script.ofText g text = .ok s ∧
    report.items.length = s.items.length ∧ ∀ item ∈ report.items, item.status = .completed
  rejected : report.exitCode = 1 ∨ report.exitCode = 2 ↔
    ∃ fault, Script.ofText g text = .error fault
  invalid : report.exitCode = 2 ↔
    ∃ fault, Script.ofText g text = .error fault ∧ fault.trouble.name = "ValidationError"
  untouched : ∀ fault, Script.ofText g text = .error fault →
    report.diagnostic = some (.ofFault fault) ∧ report.items = [] ∧
      ∀ item call, .entered item call ∉ events
  failed : ∀ s, Script.ofText g text = .ok s → report.exitCode ≠ 0 → ∃ k cause fault,
    FirstFailure r s.items events report.items k cause fault ∧
      report.diagnostic = some (.ofFault fault) ∧
      report.exitCode = if cause = .reference then 3 else 4
  thrown : ∀ item t, .left item (.threw t) ∈ events → ∃ itemReport fault,
    report.items[item]? = some itemReport ∧ itemReport.status = .aborted ∧
      itemReport.error = some fault ∧ fault.kind = .execution ∧
        ((∀ earlier ∈ report.items.take item, earlier.status ≠ .aborted) →
          report.diagnostic = some (.ofFault fault) ∧ report.exitCode = 4)

namespace Report.Tells

variable {r : Resolver} {g : Grammar} {text : String} {events : Journal}

theorem of_rejection {fault : Fault} (rejected : Script.ofText g text = .error fault)
    (record : Record) : (Report.ofRejection fault).Tells r g text [.noted record] := by
  have hCode : (Report.ofRejection fault).exitCode =
      if fault.trouble.name = "ValidationError" then 2 else 1 :=
    (exitCode_of_fault rfl).trans (ofText_of_error rejected).exitCode
  constructor
  · exact ok_iff_exitCode _
  · rw [hCode, rejected]
    split <;> simp
  · rw [hCode, rejected]
    split <;> simp
  · rw [hCode, rejected]
    split <;> simp_all
  · intro other hOther
    rw [rejected] at hOther
    cases hOther
    exact ⟨rfl, rfl, by simp⟩
  · intro s parsed
    rw [rejected] at parsed
    cases parsed
  · intro item t hLeft
    cases List.mem_singleton.mp hLeft

theorem of_run {s : Script} (parsed : Script.ofText g text = .ok s) {stopOnError : Bool}
    {reports : List ItemReport}
    (ran : Ran (ItemReport.Attended r) stopOnError 0 s.items events reports) :
    (Report.ofItems reports).Tells r g text events := by
  have hText : ∀ fault, Script.ofText g text ≠ .error fault := by
    rw [parsed]
    rintro fault ⟨⟩
  have hOther : ¬((ofItems reports).exitCode = 1 ∨ (ofItems reports).exitCode = 2) := by
    obtain ⟨hZero, -⟩ | ⟨k, cause, fault, -, hCode⟩ := ran.exitCode_ofItems
    · omega
    · split at hCode <;> omega
  constructor
  · exact ok_iff_exitCode _
  · constructor
    · intro hZero
      obtain ⟨-, hAll⟩ | ⟨k, cause, fault, -, hCode⟩ := ran.exitCode_ofItems
      · exact ⟨s, parsed, ran.length, hAll⟩
      · split at hCode <;> omega
    · rintro ⟨-, -, -, hAll⟩
      obtain ⟨hZero, -⟩ | ⟨k, cause, fault, hFirst, -⟩ := ran.exitCode_ofItems
      · exact hZero
      · obtain ⟨item, hItem, hAborted, -⟩ := hFirst.aborted
        rw [hAll item (List.mem_of_getElem? hItem)] at hAborted
        cases hAborted
  · exact iff_of_false hOther fun ⟨fault, hFault⟩ => hText fault hFault
  · exact iff_of_false (fun hTwo => hOther (.inr hTwo)) fun ⟨fault, hFault, _⟩ => hText fault hFault
  · intro fault hFault
    exact absurd hFault (hText fault)
  · intro s' parsed' hCode
    rw [parsed] at parsed'
    cases parsed'
    obtain ⟨hZero, -⟩ | ⟨k, cause, fault, hFirst, hExit⟩ := ran.exitCode_ofItems
    · exact absurd hZero hCode
    · exact ⟨k, cause, fault, hFirst, hFirst.diagnostic, hExit⟩
  · intro item t threw
    obtain ⟨report, fault, hReport, hAborted, hError, hKind⟩ := ran.aborted_of_left threw
    refine ⟨report, fault, hReport, hAborted, hError, hKind, fun noneBefore => ?_⟩
    have hDiagnostic := ran.diagnostic_of_aborted hReport hAborted hError noneBefore
    refine ⟨hDiagnostic, ?_⟩
    rw [exitCode_of_fault hDiagnostic, Fault.exitCode, hKind]
    rfl

end Report.Tells

/-- **The exit code tells what happened.** -/
theorem Runner.runText_tells {x : Runner σ} {g : Grammar} {text : String} {report : Report}
    {w w' : World σ} (ran : x.runText g text w = (.ok report, w')) :
    ∃ events, w'.journal = w.journal ++ events ∧ report.Tells x.resolver g text events := by
  rcases hText : Script.ofText g text with fault | s | _
  · rw [x.runText_of_error hText] at ran
    cases ran
    exact ⟨_, rfl, .of_rejection hText _⟩
  · rw [x.runText_of_ok hText] at ran
    obtain ⟨events, hJournal, hReport, hRan⟩ := run_attended ran
    rw [hReport]
    exact ⟨events, hJournal, .of_run hText hRan⟩
  · rw [x.runText_of_endless hText] at ran
    cases ran

/-- A handler that says of every command that a reference to it cannot be resolved. -/
def Direct.evasive : Direct Unit :=
  { handler := fun call s =>
      { outcome := .threw (.fault ⟨.unresolved call.command [], {}⟩)
        state := s }
    signal := .never }

theorem Runner.runText_tells_of_unresolved :
    (∃ report w', (direct Direct.fussy false).runText .builtin
        "SEARCH: \"milk\"\nCHAIN:\n  SEARCH: \"tea\"\n  COMPARE: analysis\n" ⟨(), []⟩ =
          (.ok report, w') ∧
      report.exitCode = 3 ∧ ∃ events : Journal, w'.journal = [] ++ events ∧
        report.Tells .standard .builtin
          "SEARCH: \"milk\"\nCHAIN:\n  SEARCH: \"tea\"\n  COMPARE: analysis\n" events) ∧
      ∃ report w', (direct Direct.evasive false).runText .builtin "SEARCH: \"milk\"\n" ⟨(), []⟩ =
          (.ok report, w') ∧
        report.exitCode = 4 ∧ ∃ events : Journal, w'.journal = [] ++ events ∧
          report.Tells .standard .builtin "SEARCH: \"milk\"\n" events := by
  constructor
  · generalize hText : "SEARCH: \"milk\"\nCHAIN:\n  SEARCH: \"tea\"\n  COMPARE: analysis\n" = text
    have hCode : ((direct Direct.fussy false).runText .builtin text ⟨(), []⟩).1.toOption.map
        Report.exitCode = some 3 := by
      subst hText
      decide +kernel
    rcases hRun : (direct Direct.fussy false).runText .builtin text ⟨(), []⟩ with ⟨e | report, w'⟩
    · rw [hRun] at hCode
      cases hCode
    · rw [hRun] at hCode
      exact ⟨report, w', rfl, Option.some.inj hCode, runText_tells hRun⟩
  · generalize hText : "SEARCH: \"milk\"\n" = text
    have hCode : ((direct Direct.evasive false).runText .builtin text ⟨(), []⟩).1.toOption.map
        Report.exitCode = some 4 := by
      subst hText
      decide +kernel
    rcases hRun : (direct Direct.evasive false).runText .builtin text ⟨(), []⟩ with ⟨e | report, w'⟩
    · rw [hRun] at hCode
      cases hCode
    · rw [hRun] at hCode
      exact ⟨report, w', rfl, Option.some.inj hCode, runText_tells hRun⟩

end Directive
