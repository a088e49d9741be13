import Directive.Proofs.Run.Steady

/-!
# Items do not touch each other

In a steady run each item has the report and the calls that it has alone, whatever the others do
and however often calls give up control.

* `together_steady`, `runItem_steady`, `runItems_steady`: what runs in rounds give;
* `Direct.runScript_steady`: what a direct run gives, unless a handler gives up;
* `runScript_isolated`: each item of a script as it is in a script of its own.
-/

namespace Directive

/-- The reports on items from some position on, each of which has the calls to itself. -/
def reportsFrom (r : Resolver) (answer : Call → Outcome) (position : Nat) :
    List Node → List ItemReport
  | [] => []
  | n :: nodes =>
    (n.reportIf r answer).movedTo position :: reportsFrom r answer (position + 1) nodes

theorem getElem?_reportsFrom (r : Resolver) (answer : Call → Outcome) (position : Nat)
    (nodes : List Node) (k : Nat) :
    (reportsFrom r answer position nodes)[k]? =
      nodes[k]?.map fun n => (n.reportIf r answer).movedTo (position + k) := by
  induction nodes generalizing position k with
  | nil => rfl
  | cons n nodes ih =>
    cases k with
    | zero => rfl
    | succ k =>
      rw [reportsFrom, List.getElem?_cons_succ, List.getElem?_cons_succ, ih, Nat.add_right_comm]
      rfl

theorem length_reportsFrom (r : Resolver) (answer : Call → Outcome) (position : Nat)
    (nodes : List Node) : (reportsFrom r answer position nodes).length = nodes.length := by
  induction nodes generalizing position with
  | nil => rfl
  | cons n nodes ih => rw [reportsFrom, List.length_cons, ih, List.length_cons]

namespace Rounds

variable {σ : Type} {c : Rounds σ} {answer : Call → Outcome}

theorem gather_ended {α : Type} {result : Nat → α} {js : List (Job σ (Except Escape α))}
    (h : ∀ j ∈ js, j.process = .ended (.ok (result j.item))) :
    gather js = .ok ((js.map Job.item).map result) := by
  induction js with
  | nil => rfl
  | cons j js ih =>
    rw [List.forall_mem_cons] at h
    rw [gather, h.1, ih h.2]
    rfl

theorem together_steady {α : Type} (steady : c.Steady answer) (tasks : List (Nat × Task α))
    (result : Nat → α) (calls : Nat → List Call) (distinct : (tasks.map Prod.fst).Nodup)
    (hTasks : ∀ t ∈ tasks, Program.answered answer t.2 = (.ok (result t.1), calls t.1))
    (w : World σ) :
    ∃ w' events, c.together tasks w = (.ok ((tasks.map Prod.fst).map result), w') ∧
      w'.journal = w.journal ++ events ∧ (∀ t ∈ tasks, events.calls t.1 = calls t.1) ∧
        ∀ other, other ∉ tasks.map Prod.fst → events.calls other = [] := by
  have hFirst : (tasks.map fun t => (t.1, t.2.run)).map Prod.fst = tasks.map Prod.fst := by
    rw [List.map_map]
    rfl
  have hDistinct : ((tasks.map fun t => (t.1, t.2.run)).map Prod.fst).Nodup := hFirst ▸ distinct
  obtain ⟨events, hJournal, hItems, hEnded, hOthers⟩ :=
    rounds_end steady (fun item => (Except.ok (result item), calls item)) hDistinct
      (List.forall_mem_map.mpr hTasks) w rfl
  rw [hFirst] at hItems hOthers
  refine ⟨_, events, ?_, hJournal, fun t ht => ?_, hOthers⟩
  · rw [← hItems, ← gather_ended fun j hj => (hEnded j hj).1]
    rfl
  · obtain ⟨j, hj, hItem⟩ := List.mem_map.mp (hItems ▸ List.mem_map_of_mem ht)
    rw [← hItem]
    exact (hEnded j hj).2

theorem runItem_steady (steady : c.Steady answer) (position : Nat) (n : Node) (w : World σ) :
    ∃ w' events,
      c.runItem position n w = (.ok ((n.reportIf c.resolver answer).movedTo position), w') ∧
        w'.journal = w.journal ++ events ∧ events.calls position = n.callsIf c.resolver answer ∧
          ∀ other, other ≠ position → events.calls other = [] := by
  obtain ⟨w', events, hRun, hJournal, hCalls, hOthers⟩ := together_steady steady
    [(position, Program.ofItem c.resolver position n)]
    (fun k => (n.reportIf c.resolver answer).movedTo k) (fun _ => n.callsIf c.resolver answer)
    (by simp)
    (List.forall_mem_singleton.mpr (n.answered_ofItem c.resolver answer position)) w
  refine ⟨w', events, ?_, hJournal, hCalls _ (List.mem_singleton_self _), fun other hOther => ?_⟩
  · rw [runItem, run_bind_of_ok hRun]
    rfl
  · exact hOthers other (by simpa using hOther)

theorem runItems_steady (steady : c.Steady answer) (position : Nat) (nodes : List Node)
    (w : World σ) :
    ∃ w' events,
      c.runItems position nodes w = (.ok (reportsFrom c.resolver answer position nodes), w') ∧
        w'.journal = w.journal ++ events ∧
        (∀ k n, nodes[k]? = some n → events.calls (position + k) = n.callsIf c.resolver answer) ∧
          ∀ other, other < position → events.calls other = [] := by
  induction nodes generalizing position w with
  | nil => exact ⟨w, [], rfl, (List.append_nil _).symm, by simp, fun _ _ => rfl⟩
  | cons node nodes ih =>
    obtain ⟨w₁, events, hFirst, hJournal, hCalls, hOthers⟩ := runItem_steady steady position node w
    obtain ⟨w₂, more, hRest, hMore, hCalls', hOthers'⟩ := ih (position + 1) w₁
    refine ⟨w₂, events ++ more, ?_, ?_, fun k n hNode => ?_, fun other hOther => ?_⟩
    · rw [runItems, run_bind_of_ok hFirst, steady.goesOn]
      simp only [Bool.false_and, Bool.false_eq_true, if_false]
      rw [run_bind_of_ok hRest]
      rfl
    · rw [hMore, hJournal, List.append_assoc]
    · rw [Journal.calls_append]
      cases k with
      | zero =>
        cases hNode
        rw [Nat.add_zero, hCalls, hOthers' position (Nat.lt_succ_self _), List.append_nil]
      | succ k =>
        have := hCalls' k n hNode
        rw [Nat.add_right_comm] at this
        rw [hOthers _ (by omega), List.nil_append]
        exact this
    · rw [Journal.calls_append, hOthers other (by omega), hOthers' other (by omega)]
      rfl

theorem runTogether_steady (steady : c.Steady answer) (s : Script) (w : World σ) :
    ∃ w' events, c.runTogether s.items w =
        (.ok (reportsFrom c.resolver answer 0 s.items), w') ∧
      w'.journal = w.journal ++ events ∧
        ∀ k n, s.items[k]? = some n → events.calls k = n.callsIf c.resolver answer := by
  let node (k : Nat) : Node := s.items.getD k (.chain none 0 0 [])
  have hNode {k : Nat} {n : Node} (h : s.items[k]? = some n) : node k = n := by
    simp [node, h]
  let tasks := s.items.mapIdx fun k n => (k, Program.ofItem c.resolver k n)
  have hItems : tasks.map Prod.fst = List.range s.items.length :=
    List.ext_getElem (by simp [tasks]) fun k _ _ => by simp [tasks]
  have hTasks : ∀ t ∈ tasks, Program.answered answer t.2 =
      (.ok (((node t.1).reportIf c.resolver answer).movedTo t.1),
        (node t.1).callsIf c.resolver answer) := by
    intro t ht
    obtain ⟨k, hk, rfl⟩ := List.mem_mapIdx.mp ht
    rw [hNode (List.getElem?_eq_getElem hk)]
    exact Node.answered_ofItem ..
  obtain ⟨w', events, hRun, hJournal, hCalls, -⟩ := together_steady steady tasks
    (fun k => ((node k).reportIf c.resolver answer).movedTo k)
    (fun k => (node k).callsIf c.resolver answer) (hItems ▸ List.nodup_range) hTasks w
  refine ⟨w', events, ?_, hJournal, fun k n h => ?_⟩
  · have hReports : (List.range s.items.length).map
        (fun k => ((node k).reportIf c.resolver answer).movedTo k) =
          reportsFrom c.resolver answer 0 s.items := by
      refine List.ext_getElem? fun k => ?_
      rw [getElem?_reportsFrom, List.getElem?_map, Nat.zero_add]
      by_cases bound : k < s.items.length
      · rw [List.getElem?_range bound, List.getElem?_eq_getElem bound, Option.map_some,
          Option.map_some, hNode (List.getElem?_eq_getElem bound)]
      · simp [Nat.le_of_not_lt bound]
    rw [runTogether, hRun, hItems, hReports]
  · have hTask : (k, Program.ofItem c.resolver k n) ∈ tasks := by
      obtain ⟨hk, rfl⟩ := List.getElem?_eq_some_iff.mp h
      exact List.mem_mapIdx.mpr ⟨k, hk, rfl⟩
    rw [hCalls _ hTask, hNode h]

/-- What a steady run in rounds gives, in either order of its items. -/
theorem runScript_steady (steady : c.Steady answer) (s : Script) (w : World σ) :
    ∃ w' events, c.runScript s w =
        (.ok (.ofItems (reportsFrom c.resolver answer 0 s.items)), w') ∧
      w'.journal = w.journal ++ events ∧
        ∀ k n, s.items[k]? = some n → events.calls k = n.callsIf c.resolver answer := by
  rw [runScript]
  split
  · obtain ⟨w', events, hRun, hRest⟩ := runTogether_steady steady s w
    exact ⟨w', events, by rw [run_bind_of_ok hRun]; rfl, hRest⟩
  · obtain ⟨w', events, hRun, hJournal, hCalls, -⟩ := runItems_steady steady 0 s.items w
    refine ⟨w', events, ?_, hJournal, fun k n hNode => ?_⟩
    · rw [run_bind_of_ok hRun]
      rfl
    · have := hCalls k n hNode
      rwa [Nat.zero_add] at this

end Rounds

namespace Direct

variable {σ : Type} {d : Direct σ} {answer : Call → Outcome}

/-- What a handler answers depends on the call only, it never gives up, and nothing stops the
run. -/
structure Steady (d : Direct σ) (answer : Call → Outcome) : Prop where
  replies : ∀ call s, (d.handler call s).outcome = answer call
  unstopped : ∀ s, (d.signal s).1 = false
  tireless : ∀ call reasons, answer call ≠ .threw (.cancelled reasons)

theorem follow_steady {α : Type} (steady : d.Steady answer) (item : Nat) (p : Program α)
    (w : World σ) : ∃ w', d.follow item p w = (.ok (p.answered answer).1, w') := by
  induction p generalizing w with
  | done a => exact ⟨w, rfl⟩
  | note records next ih => exact ih (w.note records)
  | look next ih =>
    obtain ⟨w', h⟩ := ih false { w with outer := (d.signal w.outer).2 }
    have hLook : d.look w = (.ok false, { w with outer := (d.signal w.outer).2 }) :=
      congrArg (fun stop => (Except.ok stop, _)) (steady.unstopped w.outer)
    exact ⟨w', by rw [follow, run_bind_of_ok hLook, h]; rfl⟩
  | call call next ih =>
    obtain ⟨o, w₁, hEnter, -⟩ := d.enter_eq item call w
    have hOutcome : o = answer call := by
      have hValue := congrArg Prod.fst hEnter
      cases hValue
      exact steady.replies call w.outer
    obtain ⟨w', h⟩ := ih (.outcome o) w₁
    refine ⟨w', ?_⟩
    rw [follow, run_bind_of_ok hEnter, Program.answered, ← hOutcome]
    rcases o with value | (f | f | reasons)
    · exact h
    · exact h
    · exact h
    · exact absurd hOutcome.symm (steady.tireless call reasons)

theorem runItem_steady (steady : d.Steady answer) (position : Nat) (n : Node) (w : World σ) :
    ∃ w', d.runItem position n w =
      (.ok ((n.reportIf d.resolver answer).movedTo position), w') := by
  obtain ⟨w', h⟩ := follow_steady steady position (Program.ofItem d.resolver position n) w
  rw [n.answered_ofItem d.resolver answer position] at h
  refine ⟨w', ?_⟩
  rw [← d.followTask_ofItem, followTask, run_bind_of_ok h]
  rfl

theorem runItems_steady (steady : d.Steady answer) (position : Nat) (nodes : List Node)
    (w : World σ) :
    ∃ w', d.runItems false position nodes w =
      (.ok (reportsFrom d.resolver answer position nodes), w') := by
  induction nodes generalizing position w with
  | nil => exact ⟨w, rfl⟩
  | cons node nodes ih =>
    obtain ⟨w₁, hFirst⟩ := runItem_steady steady position node w
    obtain ⟨w₂, hRest⟩ := ih (position + 1) w₁
    refine ⟨w₂, ?_⟩
    rw [runItems, run_bind_of_ok hFirst]
    simp only [Bool.false_and, Bool.false_eq_true, if_false]
    rw [run_bind_of_ok hRest]
    rfl

theorem runScript_steady (steady : d.Steady answer) (s : Script) (w : World σ) :
    ∃ w', d.runScript false s w =
      (.ok (.ofItems (reportsFrom d.resolver answer 0 s.items)), w') := by
  obtain ⟨w', h⟩ := runItems_steady steady 0 s.items w
  exact ⟨w', by rw [runScript, run_bind_of_ok h]; rfl⟩

end Direct

theorem CallTrace.aborted_of_cancelled {leaves : List Leaf} {exchanges : List (Call × Outcome)}
    {report : ItemReport} (h : CallTrace leaves exchanges report) {call : Call}
    {reasons : List Json} (hCall : (call, .threw (.cancelled reasons)) ∈ exchanges) :
    report.status = .aborted ∧
      ∃ place, report.error = some (.cancelledAt call.command .stopped place) := by
  have hThrew : ¬AllReturned exchanges := fun hReturned => by
    obtain ⟨value, hValue⟩ := hReturned _ hCall
    cases hValue
  rcases hStatus : report.status with _ | _ | _
  · exact absurd (h.completed hStatus).2 hThrew
  · obtain ⟨fault, hFault, ⟨hReturned, -⟩ | ⟨before, last, thrown, place, rfl, hBefore, rfl⟩⟩ :=
      h.aborted hStatus
    · exact absurd hReturned hThrew
    · rcases List.mem_append.mp hCall with hEarlier | hLast
      · obtain ⟨value, hValue⟩ := hBefore _ hEarlier
        cases hValue
      · cases List.mem_singleton.mp hLast
        exact ⟨rfl, place, hFault⟩
  · rw [h.skipped hStatus] at hCall
    cases hCall

namespace Rounds

variable {σ : Type} {c : Rounds σ} {answer : Call → Outcome}

/-- A run that comes to a report, and what it adds to the journal. -/
def Gives (c : Rounds σ) (s : Script) (w : World σ) (report : Report) (events : Journal) : Prop :=
  ∃ w', c.runScript s w = (.ok report, w') ∧ w'.journal = w.journal ++ events

/-- An item of a run has the report and the calls that it has alone in any run whose handler answers
alike. If its handler gives up, the item aborts. -/
structure Isolated (r : Resolver) (answer : Call → Outcome) (item : Nat) (n : Node)
    (report : ItemReport) (events : Journal) : Prop where
  alone : ∀ {τ : Type} {c : Rounds τ}, c.Steady answer → c.resolver = r → ∀ w : World τ,
    ∃ own ownEvents, c.Gives ⟨[n]⟩ w (.ofItems [own]) ownEvents ∧ report = own.movedTo item ∧
      events.calls item = ownEvents.calls 0
  cancelled : ∀ call ∈ events.calls item, ∀ reasons, answer call = .threw (.cancelled reasons) →
    report.status = .aborted ∧
      ∃ place, report.error = some (.cancelledAt call.command .stopped place)

theorem isolated_of_calls {r : Resolver} {item : Nat} {n : Node} {events : Journal}
    (hCalls : events.calls item = n.callsIf r answer) :
    Isolated r answer item n ((n.reportIf r answer).movedTo item) events := by
  constructor
  · rintro τ c steady rfl w
    obtain ⟨w', ownEvents, hRun, hJournal, hOwn⟩ := runScript_steady steady ⟨[n]⟩ w
    exact ⟨_, ownEvents, ⟨w', hRun, hJournal⟩, rfl, by rw [hCalls, hOwn 0 n rfl]⟩
  · intro call hCall reasons hAnswer
    rw [hCalls] at hCall
    have hExchange : (call, .threw (.cancelled reasons)) ∈
        Program.withAnswers answer (n.callsIf r answer) :=
      List.mem_map.mpr ⟨call, hCall, by rw [hAnswer]⟩
    exact (n.callTrace_reportIf r answer).aborted_of_cancelled hExchange

/-- A steady run in rounds comes to a report on each item, in the order of the text, and each item
is as it is alone. A direct run whose handler answers alike and never gives up has the same
report. -/
theorem runScript_isolated (steady : c.Steady answer) (s : Script) (w : World σ) :
    ∃ report events, c.Gives s w report events ∧ report.items.length = s.items.length ∧
      (∀ k n itemReport, s.items[k]? = some n → report.items[k]? = some itemReport →
        Isolated c.resolver answer k n itemReport events) ∧
      ∀ {τ : Type} {d : Direct τ}, d.Steady answer → d.resolver = c.resolver → ∀ w₀ : World τ,
        ∃ w', d.runScript false s w₀ = (.ok report, w') := by
  obtain ⟨w', events, hRun, hJournal, hCalls⟩ := runScript_steady steady s w
  refine ⟨_, events, ⟨w', hRun, hJournal⟩, length_reportsFrom ..,
    fun k n itemReport hNode hReport => ?_, fun hSteady hResolver w₀ => ?_⟩
  · have hItem : (n.reportIf c.resolver answer).movedTo k = itemReport := by
      rw [Report.ofItems, getElem?_reportsFrom, hNode, Nat.zero_add] at hReport
      exact Option.some.inj hReport
    rw [← hItem]
    exact isolated_of_calls (hCalls k n hNode)
  · rw [← hResolver]
    exact Direct.runScript_steady hSteady s w₀

theorem repliesWith_after (o : Outcome) (n : Nat) :
    (Pending.after (.reply o) n : Pending σ).RepliesWith o := by
  induction n with
  | zero => exact .reply
  | succ n ih => exact .pause fun _ => ih

/-- A handler that counts its calls, and pauses twice before it answers. -/
def patient (answer : Call → Outcome) : Rounds Nat :=
  { handler := fun call n =>
      { pending := Pending.after (.reply (answer call)) 2
        state := n + 1 }
    signal := .never }

theorem steady_patient (answer : Call → Outcome) : (patient answer).Steady answer :=
  ⟨fun _ _ => repliesWith_after _ 2, fun _ => rfl, rfl, rfl⟩

/-- Commands are answered with their names, and one of them with something thrown. -/
def fussyAnswer (thrown : Thrown) (call : Call) : Outcome :=
  if call.command = "REFINE" then .threw thrown else .returned (.text call.command)

theorem steady_fussy : Direct.fussy.Steady (fussyAnswer (.failure ⟨.value, []⟩)) := by
  refine ⟨fun _ _ => rfl, fun _ => rfl, fun call reasons h => ?_⟩
  unfold fussyAnswer at h
  split at h <;> cases h

theorem runScript_isolated_teaScript :
    (∃ report events, (patient (fussyAnswer (.cancelled []))).Gives Direct.teaScript ⟨0, []⟩
        report events ∧
      report.items.map ItemReport.status = [.aborted, .completed] ∧
        ∀ k n itemReport, Direct.teaScript.items[k]? = some n → report.items[k]? = some itemReport →
          Isolated .standard (fussyAnswer (.cancelled [])) k n itemReport events) ∧
      ∃ report events w', (patient (fussyAnswer (.failure ⟨.value, []⟩))).Gives Direct.teaScript
          ⟨0, []⟩ report events ∧
        Direct.fussy.runScript false Direct.teaScript ⟨(), []⟩ = (.ok report, w') := by
  constructor
  · obtain ⟨report, events, ⟨w', hRun, hJournal⟩, -, hItems, -⟩ :=
      runScript_isolated (steady_patient (fussyAnswer (.cancelled []))) Direct.teaScript ⟨0, []⟩
    refine ⟨report, events, ⟨w', hRun, hJournal⟩, ?_, hItems⟩
    obtain ⟨w'', -, hSteady, -⟩ :=
      runScript_steady (steady_patient (fussyAnswer (.cancelled []))) Direct.teaScript ⟨0, []⟩
    cases hRun.symm.trans hSteady
    rfl
  · obtain ⟨report, events, hGives, -, -, hDirect⟩ := runScript_isolated
      (steady_patient (fussyAnswer (.failure ⟨.value, []⟩))) Direct.teaScript ⟨0, []⟩
    obtain ⟨w', hRun⟩ := hDirect steady_fussy rfl ⟨(), []⟩
    exact ⟨report, events, w', hGives, hRun⟩

end Rounds

end Directive
