import Mathlib.Data.List.Induction
import Mathlib.Data.List.ReduceOption
import Directive.Proofs.Run.Upkeep

/-!
# What items hear of their calls

An item hears how each of its calls ended, under a limit or without one, and the journal shows just
the outcomes that it hears of.

* `Journal.Counts`, `Journal.Exchanged`: the calls that a journal shows of an item;
* `Reply.Conveys`, `Journal.Conveyed`, `Journal.Tells`: replies against the outcomes that it shows;
* `Hears`, `Journal.Heard`: replies against the calls that it shows;
* `Journal.Heard.exchanged`: where each call was answered by its outcome, these are the same;
* `Journal.Exchanged.unchanged`: an item that hears of no more calls has made no more of them.
-/

namespace Directive

namespace Journal

/-- The calls that a journal shows of an item, with the outcomes of those that ended. -/
structure Counts (item : Nat) (events : Journal) (told : List (Call × Option Outcome)) : Prop where
  calls : events.calls item = told.map Prod.fst
  outcomes : events.outcomes item = told.filterMap Prod.snd

/-- The calls that a journal shows of an item, all of which have ended. -/
structure Exchanged (item : Nat) (events : Journal) (exchanges : List (Call × Outcome)) : Prop where
  calls : events.calls item = exchanges.map Prod.fst
  outcomes : events.outcomes item = exchanges.map Prod.snd

namespace Counts

variable {item : Nat} {events : Journal} {told : List (Call × Option Outcome)}

theorem append (h : events.Counts item told) {more : Journal} (skips : more.Skips item) :
    (events ++ more).Counts item told := by
  constructor
  · rw [Journal.calls_append, skips.1, List.append_nil, h.calls]
  · rw [Journal.outcomes_append, skips.2, List.append_nil, h.outcomes]

theorem prepend (h : events.Counts item told) {front : Journal} (skips : front.Skips item) :
    (front ++ events).Counts item told := by
  constructor
  · rw [Journal.calls_append, skips.1, List.nil_append, h.calls]
  · rw [Journal.outcomes_append, skips.2, List.nil_append, h.outcomes]

theorem of_skips (skips : events.Skips item) : events.Counts item [] := ⟨skips.1, skips.2⟩

theorem entered (h : events.Counts item told) (call : Call) (records : List Record) :
    Counts item (events ++ .entered item call :: records.map .noted) (told ++ [(call, none)]) := by
  have hNoted := Skips.noted item records
  constructor
  · simp [Journal.calls_append, Journal.calls, h.calls, hNoted.1]
  · simp [Journal.outcomes_append, Journal.outcomes, h.outcomes, hNoted.2]

theorem left {call : Call} (h : events.Counts item (told ++ [(call, none)])) (o : Outcome) :
    Counts item (events ++ [.left item o]) (told ++ [(call, some o)]) := by
  constructor
  · simpa [Journal.calls_append, Journal.calls] using h.calls
  · simpa [Journal.outcomes_append, Journal.outcomes] using h.outcomes

end Counts

end Journal

/-- What a caller hears of an outcome, or of there being none. Under a limit a handler that says that
it timed out is taken to be over the limit itself. -/
inductive Reply.Conveys : Reply → Option Outcome → Prop
  | outcome (o : Outcome) : Conveys (.outcome o) (some o)
  | late (seconds : Binary64) (reasons : List Json) :
      Conveys (.timedOut seconds) (some (.threw (.failure ⟨.timeout, reasons⟩)))
  | overdue (seconds : Binary64) : Conveys (.timedOut seconds) none
  | interrupted : Conveys .interrupted none

theorem Rounds.conveys_heard (seconds : Binary64) (o : Outcome) :
    (heard seconds o).Conveys (some o) := by
  unfold heard
  split
  · exact .late seconds _
  · exact .outcome o

theorem Rounds.conveys_relief {σ : Type} {c : Rounds σ} {r : Reply} (h : c.relief = some r) :
    r.Conveys none := by
  unfold relief at h
  split at h
  · cases h
    exact .interrupted
  · obtain ⟨seconds, -, rfl⟩ := Option.map_eq_some_iff.mp h
    exact .overdue seconds

/-- An item has been told of its calls by replies that convey just the outcomes in the journal. -/
def Journal.Conveyed (item : Nat) (events : Journal) (calls : List (Call × Reply)) : Prop :=
  ∃ outcomes, calls.Forall₂ (fun x o => x.2.Conveys o) outcomes ∧
    events.outcomes item = outcomes.reduceOption

/-- The outcomes that an item has been told of are in the journal. -/
def Journal.Tells (item : Nat) (events : Journal) (calls : List (Call × Reply)) : Prop :=
  ∀ x ∈ calls, ∀ o, x.2 = .outcome o → o ∈ events.outcomes item

/-- An outcome in the journal has come to its item as a reply. -/
theorem Journal.Conveyed.reply {item : Nat} {events : Journal} {calls : List (Call × Reply)}
    (h : events.Conveyed item calls) {o : Outcome} (hOutcome : o ∈ events.outcomes item) :
    ∃ call r, (call, r) ∈ calls ∧ r.Conveys (some o) := by
  obtain ⟨outcomes, hConveys, hOutcomes⟩ := h
  rw [hOutcomes, List.reduceOption_mem_iff] at hOutcome
  obtain ⟨k, hk, hOutcome⟩ := List.mem_iff_getElem.mp hOutcome
  have hBound : k < calls.length := by
    rwa [hConveys.length_eq]
  have hReply := hConveys.get hBound hk
  rw [List.get_eq_getElem, List.get_eq_getElem, hOutcome] at hReply
  exact ⟨_, _, List.getElem_mem hBound, hReply⟩

/-- The calls of an item with what it hears of them, against those that were entered. A call whose
limit has passed before it could be entered is answered all the same. -/
inductive Hears : List (Call × Option Outcome) → List (Call × Reply) → Prop
  | nothing : Hears [] []
  | reply {asked : List (Call × Option Outcome)} {calls : List (Call × Reply)} {r : Reply}
      {o : Option Outcome} (earlier : Hears asked calls) (conveys : r.Conveys o) (call : Call) :
      Hears (asked ++ [(call, o)]) (calls ++ [(call, r)])
  | overdue {asked : List (Call × Option Outcome)} {calls : List (Call × Reply)}
      (earlier : Hears asked calls) (call : Call) (seconds : Binary64) :
      Hears asked (calls ++ [(call, .timedOut seconds)])

/-- An item has heard of its calls what the journal shows of them. -/
def Journal.Heard (item : Nat) (events : Journal) (calls : List (Call × Reply)) : Prop :=
  ∃ asked, events.Counts item asked ∧ Hears asked calls

section Hearing

variable {asked : List (Call × Option Outcome)} {calls : List (Call × Reply)}

theorem Hears.conveys (h : Hears asked calls) : ∃ outcomes,
    calls.Forall₂ (fun x o => x.2.Conveys o) outcomes ∧
      asked.filterMap Prod.snd = outcomes.reduceOption := by
  induction h with
  | nothing => exact ⟨[], .nil, rfl⟩
  | @reply asked calls r o _ conveys call ih =>
    obtain ⟨outcomes, hConveys, hSame⟩ := ih
    refine ⟨outcomes ++ [o], List.rel_append hConveys (.cons conveys .nil), ?_⟩
    rw [List.filterMap_append, List.reduceOption_append, hSame]
    cases o <;> rfl
  | @overdue asked calls _ call seconds ih =>
    obtain ⟨outcomes, hConveys, hSame⟩ := ih
    refine ⟨outcomes ++ [none], List.rel_append hConveys (.cons (.overdue seconds) .nil), ?_⟩
    rw [List.reduceOption_append, hSame]
    exact (List.append_nil _).symm

/-- Where each call was answered by an outcome, it was entered and came to that outcome. -/
theorem Hears.answered {exchanges : List (Call × Outcome)} (h : Hears asked calls)
    (same : exchanges.map replied = calls) : asked = exchanges.map fun x => (x.1, some x.2) := by
  induction h generalizing exchanges with
  | nothing =>
    cases List.map_eq_nil_iff.mp same
    rfl
  | @reply asked calls r o _ conveys call ih =>
    obtain ⟨front, last, rfl, hFront, hLast⟩ := List.map_eq_append_iff.mp same
    obtain ⟨x, rfl, hReply⟩ := List.map_eq_singleton_iff.mp hLast
    cases hReply
    cases conveys
    rw [ih hFront, List.map_append]
    rfl
  | overdue _ call seconds _ =>
    obtain ⟨front, last, rfl, -, hLast⟩ := List.map_eq_append_iff.mp same
    obtain ⟨x, rfl, hReply⟩ := List.map_eq_singleton_iff.mp hLast
    cases hReply

theorem hears_replied (exchanges : List (Call × Outcome)) :
    Hears (exchanges.map fun x => (x.1, some x.2)) (exchanges.map replied) := by
  induction exchanges using List.reverseRecOn with
  | nil => exact .nothing
  | append_singleton exchanges x ih =>
    rw [List.map_append, List.map_append]
    exact .reply ih (.outcome x.2) x.1

end Hearing

namespace Journal.Heard

variable {item : Nat} {events more : Journal} {calls : List (Call × Reply)}

theorem nothing (skips : events.Skips item) : events.Heard item [] :=
  ⟨[], .of_skips skips, .nothing⟩

theorem append (h : events.Heard item calls) (skips : more.Skips item) :
    (events ++ more).Heard item calls := by
  obtain ⟨asked, hCounts, hHears⟩ := h
  exact ⟨asked, hCounts.append skips, hHears⟩

theorem prepend (h : events.Heard item calls) (skips : more.Skips item) :
    (more ++ events).Heard item calls := by
  obtain ⟨asked, hCounts, hHears⟩ := h
  exact ⟨asked, hCounts.prepend skips, hHears⟩

theorem overdue (h : events.Heard item calls) (call : Call) (seconds : Binary64) :
    events.Heard item (calls ++ [(call, .timedOut seconds)]) := by
  obtain ⟨asked, hCounts, hHears⟩ := h
  exact ⟨asked, hCounts, .overdue hHears call seconds⟩

theorem conveyed (h : events.Heard item calls) : events.Conveyed item calls := by
  obtain ⟨asked, hCounts, hHears⟩ := h
  obtain ⟨outcomes, hConveys, hSame⟩ := hHears.conveys
  exact ⟨outcomes, hConveys, hCounts.outcomes.trans hSame⟩

/-- The journal shows the calls of an item, each with its outcome, if that is how it was answered. -/
theorem exchanged {exchanges : List (Call × Outcome)}
    (h : events.Heard item (exchanges.map replied)) : events.Exchanged item exchanges := by
  obtain ⟨asked, hCounts, hHears⟩ := h
  cases hHears.answered rfl
  refine ⟨?_, ?_⟩
  · rw [hCounts.calls, List.map_map]
    rfl
  · rw [hCounts.outcomes, List.filterMap_map]
    exact congrFun List.filterMap_eq_map exchanges

theorem of_exchanged {exchanges : List (Call × Outcome)} (h : events.Exchanged item exchanges) :
    events.Heard item (exchanges.map replied) := by
  refine ⟨_, ⟨?_, ?_⟩, hears_replied exchanges⟩
  · rw [h.calls, List.map_map]
    rfl
  · rw [h.outcomes, List.filterMap_map]
    exact (congrFun List.filterMap_eq_map exchanges).symm

theorem length_le (h : events.Heard item calls) : (events.outcomes item).length ≤ calls.length := by
  obtain ⟨outcomes, hConveys, hOutcomes⟩ := h.conveyed
  rw [hOutcomes, hConveys.length_eq]
  exact outcomes.reduceOption_length_le

/-- Where as many calls have returned as an item has heard of, each was answered by its outcome. -/
theorem replied_of_returned (h : events.Heard item calls)
    (enough : calls.length ≤ (events.outcomes item).length)
    (returned : ∀ o ∈ events.outcomes item, ∃ value, o = .returned value) :
    ∃ exchanges : List (Call × Outcome), calls = exchanges.map replied := by
  obtain ⟨outcomes, hConveys, hOutcomes⟩ := h.conveyed
  rw [hOutcomes, hConveys.length_eq] at enough
  have hSome := List.reduceOption_length_eq_iff.mp
    (Nat.le_antisymm outcomes.reduceOption_length_le enough)
  rw [hOutcomes] at returned
  have hReturned : ∀ o ∈ outcomes, ∃ value, o = some (.returned value) := by
    intro o ho
    obtain ⟨outcome, rfl⟩ := Option.isSome_iff_exists.mp (hSome o ho)
    obtain ⟨value, rfl⟩ := returned outcome (List.reduceOption_mem_iff.mpr ho)
    exact ⟨value, rfl⟩
  clear h hOutcomes enough hSome returned
  induction hConveys with
  | nil => exact ⟨[], rfl⟩
  | @cons x o calls outcomes conveys _ ih =>
    obtain ⟨⟨value, rfl⟩, hOthers⟩ := List.forall_mem_cons.mp hReturned
    obtain ⟨exchanges, rfl⟩ := ih hOthers
    obtain ⟨call, reply⟩ := x
    cases conveys
    exact ⟨(call, .returned value) :: exchanges, rfl⟩

theorem tells (h : events.Heard item calls) : events.Tells item calls := by
  obtain ⟨outcomes, hConveys, hOutcomes⟩ := h.conveyed
  rintro x hCall o hReply
  obtain ⟨k, hk, rfl⟩ := List.mem_iff_getElem.mp hCall
  have hBound : k < outcomes.length := by
    rwa [← hConveys.length_eq]
  have hConvey := hConveys.get hk hBound
  rw [List.get_eq_getElem, List.get_eq_getElem, hReply] at hConvey
  rw [hOutcomes, List.reduceOption_mem_iff]
  generalize hLast : outcomes[k] = last at hConvey
  cases hConvey
  rw [← hLast]
  exact List.getElem_mem hBound

end Journal.Heard

namespace Journal.Exchanged

variable {item : Nat} {shown more : Journal} {exchanges own : List (Call × Outcome)}
  {calls : List (Call × Reply)}

theorem unique (h : shown.Exchanged item exchanges) (h' : shown.Exchanged item own) :
    exchanges = own := by
  have hCalls := h.calls.symm.trans h'.calls
  have hOutcomes := h.outcomes.symm.trans h'.outcomes
  rw [← List.zip_unzip exchanges, ← List.zip_unzip own, List.unzip_eq_map, List.unzip_eq_map,
    hCalls, hOutcomes]

/-- An item that hears of no more calls than were shown, all of which have returned, has made just
these. -/
theorem unchanged (h : shown.Exchanged item exchanges) (returned : AllReturned exchanges)
    (heard : (shown ++ more).Heard item calls) (few : calls.length ≤ exchanges.length) :
    (shown ++ more).Exchanged item exchanges ∧ calls = exchanges.map replied := by
  have hOutcomes : exchanges.map Prod.snd = (shown ++ more).outcomes item := by
    have hShown : exchanges.map Prod.snd <+: (shown ++ more).outcomes item := by
      rw [outcomes_append, h.outcomes]
      exact List.prefix_append _ _
    apply hShown.eq_of_length_le
    rw [List.length_map]
    exact Nat.le_trans heard.length_le few
  obtain ⟨own, rfl⟩ : ∃ own : List (Call × Outcome), calls = own.map replied := by
    apply heard.replied_of_returned
    · rwa [← hOutcomes, List.length_map]
    · intro o ho
      rw [← hOutcomes] at ho
      obtain ⟨x, hx, rfl⟩ := List.mem_map.mp ho
      exact returned x hx
  have hOwn := heard.exchanged
  have hCalls : exchanges.map Prod.fst = (shown ++ more).calls item := by
    have hShown : exchanges.map Prod.fst <+: (shown ++ more).calls item := by
      rw [calls_append, h.calls]
      exact List.prefix_append _ _
    apply hShown.eq_of_length_le
    rw [hOwn.calls]
    simpa using few
  have hSame : (shown ++ more).Exchanged item exchanges := ⟨hCalls.symm, hOutcomes.symm⟩
  exact ⟨hSame, congrArg (List.map replied) (hOwn.unique hSame)⟩

end Journal.Exchanged

end Directive
