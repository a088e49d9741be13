import Directive.Proofs.Run.Course
import Directive.Proofs.Run.Follow

/-!
# The calls of a direct run

* `Journal.Shows`: events that are those of one item, with given calls and outcomes;
* `CallTrace`: the calls of an item against its plan and its report;
* `runScript_calls`: in a direct run that gives a report, every item has such calls.
-/

namespace Directive

/-- How the calls of an item ended. -/
def Journal.outcomes (item : Nat) : Journal → List Outcome
  | [] => []
  | .left i o :: es => if i = item then o :: outcomes item es else outcomes item es
  | _ :: es => outcomes item es

namespace Journal

theorem calls_append (item : Nat) (es fs : Journal) :
    calls item (es ++ fs) = calls item es ++ calls item fs := by
  induction es with
  | nil => rfl
  | cons e es ih =>
    rcases e with record | ⟨i, call⟩ | ⟨i, outcome⟩
    · exact ih
    · rw [List.cons_append, calls, calls, ih]
      split <;> rfl
    · exact ih

theorem outcomes_append (item : Nat) (es fs : Journal) :
    outcomes item (es ++ fs) = outcomes item es ++ outcomes item fs := by
  induction es with
  | nil => rfl
  | cons e es ih =>
    rcases e with record | ⟨i, call⟩ | ⟨i, outcome⟩
    · exact ih
    · exact ih
    · rw [List.cons_append, outcomes, outcomes, ih]
      split <;> rfl

/-- Events of one item only, with its calls and how each of them ended. -/
structure Shows (item : Nat) (exchanges : List (Call × Outcome)) (events : Journal) : Prop where
  calls : events.calls item = exchanges.map Prod.fst
  outcomes : events.outcomes item = exchanges.map Prod.snd
  others : ∀ other, other ≠ item → events.calls other = [] ∧ events.outcomes other = []

namespace Shows

variable {item : Nat} {exchanges more : List (Call × Outcome)} {events later : Journal}

theorem append (h : Shows item exchanges events) (hLater : Shows item more later) :
    Shows item (exchanges ++ more) (events ++ later) := by
  constructor
  · rw [calls_append, h.calls, hLater.calls, List.map_append]
  · rw [outcomes_append, h.outcomes, hLater.outcomes, List.map_append]
  · intro other hOther
    rw [calls_append, outcomes_append, (h.others other hOther).1, (h.others other hOther).2]
    exact hLater.others other hOther

theorem noted (item : Nat) (records : List Record) : Shows item [] (records.map .noted) := by
  induction records with
  | nil => exact ⟨rfl, rfl, fun _ _ => ⟨rfl, rfl⟩⟩
  | cons record records ih => exact ⟨ih.calls, ih.outcomes, ih.others⟩

theorem exchange (item : Nat) (call : Call) (records : List Record) (o : Outcome) :
    Shows item [(call, o)] (.entered item call :: (records.map .noted ++ [.left item o])) := by
  have hNoted := noted item records
  constructor
  · simp [Journal.calls, calls_append, hNoted.calls]
  · simp [Journal.outcomes, outcomes_append, hNoted.outcomes]
  · intro other hOther
    simp [Journal.calls, Journal.outcomes, calls_append, outcomes_append, Ne.symm hOther,
      (hNoted.others other hOther).1, (hNoted.others other hOther).2]

end Shows

end Journal

/-- A call with its outcome as its reply. -/
def replied (x : Call × Outcome) : Call × Reply := (x.1, .outcome x.2)

theorem ok_of_run_bind {σ α β : Type} {x : Run σ α} {f : α → Run σ β} {w w' : World σ} {b : β}
    (h : (x >>= f) w = (.ok b, w')) : ∃ a w₁, x w = (.ok a, w₁) ∧ f a w₁ = (.ok b, w') := by
  change ExceptT.bindCont f (x w).1 (x w).2 = _ at h
  rcases hx : x w with ⟨e | a, w₁⟩
  · rw [hx] at h
    cases h
  · rw [hx] at h
    exact ⟨a, w₁, rfl, h⟩

theorem run_bind_of_ok {σ α β : Type} {x : Run σ α} {a : α} {w w' : World σ}
    (h : x w = (.ok a, w')) (f : α → Run σ β) : (x >>= f) w = f a w' := by
  change ExceptT.bindCont f (x w).1 (x w).2 = _
  rw [h]
  rfl

namespace Direct

open Program (Ends)
open Journal (Shows)

variable {σ α : Type} (d : Direct σ)

theorem enter_eq (item : Nat) (call : Call) (w : World σ) :
    ∃ o w', d.enter item call w = (.ok o, w') ∧ ∃ records : List Record, w'.journal =
      w.journal ++ .entered item call :: (records.map .noted ++ [.left item o]) := by
  refine ⟨(d.handler call w.outer).outcome, _, rfl, (d.handler call w.outer).records, ?_⟩
  simp [World.add, World.note]

/-- A program that is followed to its end makes calls on the way that the journal shows. -/
theorem ends_of_follow {item : Nat} {p : Program α} {a : α} {w w' : World σ}
    (h : d.follow item p w = (.ok a, w')) :
    ∃ exchanges events, Ends p (exchanges.map replied) a ∧ w'.journal = w.journal ++ events ∧
      Shows item exchanges events := by
  induction p generalizing w with
  | done b =>
    cases h
    exact ⟨[], [], .done, by simp, ⟨rfl, rfl, fun _ _ => ⟨rfl, rfl⟩⟩⟩
  | note records next ih =>
    obtain ⟨exchanges, events, hEnds, hJournal, hShows⟩ := ih (w := w.note records) h
    refine ⟨exchanges, records.map .noted ++ events, .note hEnds, ?_, ?_⟩
    · rw [hJournal, World.note, World.add, List.append_assoc]
    · exact (Shows.noted item records).append hShows
  | look next ih =>
    obtain ⟨exchanges, events, hEnds, hJournal, hShows⟩ :=
      ih (d.signal w.outer).1 (w := { w with outer := (d.signal w.outer).2 }) h
    exact ⟨exchanges, events, .look _ hEnds, hJournal, hShows⟩
  | call call next ih =>
    obtain ⟨o, w₁, hEnter, records, hEntered⟩ := d.enter_eq item call w
    rw [follow] at h
    obtain ⟨o', w₂, hEnter', hNext⟩ := ok_of_run_bind h
    rw [hEnter] at hEnter'
    cases hEnter'
    have hRest : d.follow item (next (.outcome o)) w₁ = (.ok a, w') := by
      rcases o with value | (f | f | reasons)
      · exact hNext
      · exact hNext
      · exact hNext
      · cases hNext
    obtain ⟨exchanges, events, hEnds, hJournal, hShows⟩ := ih _ hRest
    refine ⟨(call, o) :: exchanges, _, .call _ hEnds, ?_,
      (Shows.exchange item call records o).append hShows⟩
    rw [hJournal, hEntered, List.append_assoc]

end Direct

/-- What an item is reported to have failed with if its handler throws. -/
def Thrown.faultIn (t : Thrown) (command : String) (place : Place) : Fault :=
  match t with
  | .fault f => f.thrownBy command place
  | .failure f => .ofFailure f command place
  | .cancelled _ => .cancelledAt command .stopped place

def Outcome.value? : Outcome → Option Value
  | .returned value => some value
  | .threw _ => none

/-- The values that some calls returned. -/
def returnedValues (exchanges : List (Call × Outcome)) : List Value :=
  exchanges.filterMap fun x => x.2.value?

def AllReturned (exchanges : List (Call × Outcome)) : Prop :=
  ∀ x ∈ exchanges, ∃ value, x.2 = .returned value

theorem allReturned_nil : AllReturned [] := by simp [AllReturned]

theorem AllReturned.cons {exchanges : List (Call × Outcome)} (h : AllReturned exchanges)
    (call : Call) (value : Value) : AllReturned ((call, .returned value) :: exchanges) :=
  List.forall_mem_cons.mpr ⟨⟨value, rfl⟩, h⟩

/-- The calls of an item and how they ended, against its plan and its report. -/
structure CallTrace (leaves : List Leaf) (exchanges : List (Call × Outcome)) (report : ItemReport) :
    Prop where
  within : exchanges.length ≤ leaves.length
  given : ∀ (k : Nat) (leaf : Leaf) (x : Call × Outcome), leaves[k]? = some leaf →
    exchanges[k]? = some x → ∃ input,
      leaf.source.value? (returnedValues (exchanges.take k)) = some input ∧
        x.1 = leaf.invocation.call input
  completed : report.status = .completed →
    exchanges.length = leaves.length ∧ AllReturned exchanges
  aborted : report.status = .aborted → ∃ fault, report.error = some fault ∧
    (AllReturned exchanges ∧ fault.IsOwn ∨
      ∃ before call thrown place, exchanges = before ++ [(call, .threw thrown)] ∧
        AllReturned before ∧ fault = thrown.faultIn call.command place)
  skipped : report.status = .skipped → exchanges = []

/-- What an ending says of the calls before it. -/
def Ending.Explains (leaves : List Leaf) (exchanges : List (Call × Outcome)) : Ending → Prop
  | .complete _ => exchanges.length = leaves.length ∧ AllReturned exchanges
  | .broken => AllReturned exchanges
  | .failed i reply => ∃ before call thrown, exchanges = before ++ [(call, .threw thrown)] ∧
      AllReturned before ∧ reply = .outcome (.threw thrown) ∧ call.command = i.command

namespace Course

variable {leaves : List Leaf} {values : List Value} {exchanges : List (Call × Outcome)}
  {e : Ending}

theorem within (h : Course leaves values (exchanges.map replied) e) :
    exchanges.length ≤ leaves.length := by
  generalize hCalls : exchanges.map replied = calls at h
  induction h generalizing exchanges with
  | complete => simp_all
  | broken => simp_all
  | failed => 
    have := congrArg List.length hCalls
    simp at this
    simp [this]
  | returned given _ ih =>
    rcases exchanges with _ | ⟨x, exchanges⟩
    · cases hCalls
    · have := ih (List.cons.inj hCalls).2
      simpa using this

theorem given (h : Course leaves values (exchanges.map replied) e) (k : Nat) (leaf : Leaf)
    (x : Call × Outcome) (hLeaf : leaves[k]? = some leaf) (hExchange : exchanges[k]? = some x) :
    ∃ input, leaf.source.value? (values ++ returnedValues (exchanges.take k)) = some input ∧
      x.1 = leaf.invocation.call input := by
  generalize hCalls : exchanges.map replied = calls at h
  induction h generalizing exchanges k with
  | complete => cases hLeaf
  | broken =>
    rw [List.map_eq_nil_iff.mp hCalls] at hExchange
    cases hExchange
  | @failed _ _ _ input _ given =>
    obtain ⟨y, rfl, hReplied⟩ := List.map_eq_singleton_iff.mp hCalls
    cases k with
    | zero =>
      cases hLeaf
      cases hExchange
      exact ⟨input, by simpa [returnedValues] using given, congrArg Prod.fst hReplied⟩
    | succ k => cases hExchange
  | @returned _ _ _ input value _ _ given _ ih =>
    rcases exchanges with _ | ⟨y, exchanges⟩
    · cases hCalls
    obtain ⟨hFirst, hOthers⟩ := List.cons.inj hCalls
    cases k with
    | zero =>
      cases hLeaf
      cases hExchange
      exact ⟨input, by simpa [returnedValues] using given, congrArg Prod.fst hFirst⟩
    | succ k =>
      obtain ⟨input', hValue, hCall⟩ := ih k hLeaf hExchange hOthers
      refine ⟨input', ?_, hCall⟩
      have hReturned : y.2 = .returned value := by
        have := congrArg Prod.snd hFirst
        simpa [replied] using this
      simpa [returnedValues, hReturned, Outcome.value?] using hValue

/-- A course goes on only behind calls that return. -/
theorem explains (h : Course leaves values (exchanges.map replied) e) :
    e.Explains leaves exchanges := by
  generalize hCalls : exchanges.map replied = calls at h
  induction h generalizing exchanges with
  | complete =>
    rw [List.map_eq_nil_iff.mp hCalls]
    exact ⟨rfl, allReturned_nil⟩
  | broken =>
    rw [List.map_eq_nil_iff.mp hCalls]
    exact allReturned_nil
  | @failed leaf _ _ input _ _ noValue =>
    obtain ⟨⟨call, o⟩, rfl, hReplied⟩ := List.map_eq_singleton_iff.mp hCalls
    cases hReplied
    rcases o with value | thrown
    · exact absurd rfl (noValue value)
    · exact ⟨[], _, thrown, rfl, allReturned_nil, rfl, rfl⟩
  | @returned _ _ _ _ value _ e _ _ ih =>
    rcases exchanges with _ | ⟨⟨call, o⟩, exchanges⟩
    · cases hCalls
    obtain ⟨hFirst, hOthers⟩ := List.cons.inj hCalls
    cases hFirst
    have hRest := ih hOthers
    cases e with
    | complete => exact ⟨by simpa using hRest.1, hRest.2.cons _ _⟩
    | broken => exact AllReturned.cons hRest _ _
    | failed =>
      obtain ⟨before, call, thrown, rfl, hBefore, hReply, hCommand⟩ := hRest
      exact ⟨_ :: before, call, thrown, rfl, hBefore.cons _ _, hReply, hCommand⟩

end Course

open Program (Agrees ItemAgrees stepEnd StepEnd)

theorem stepEnd_of_threw (i : Invocation) (index : Option Nat) (t : Thrown) :
    stepEnd i index (.outcome (.threw t)) = .fault (t.faultIn i.command (i.placeAt index)) := by
  cases t <;> rfl

theorem callTrace_of_course {leaves : List Leaf} {exchanges : List (Call × Outcome)} {e : Ending}
    {position : Nat} {n : Node} {s : Source} {report : ItemReport}
    (course : Course leaves [] (exchanges.map replied) e)
    (agrees : ItemAgrees position n e s (.ok report)) : CallTrace leaves exchanges report := by
  have hBefore := course.explains
  have hGiven := course.given
  simp only [List.nil_append] at hGiven
  cases agrees with
  | completed agrees status error same =>
    cases agrees with
    | complete result =>
      exact ⟨course.within, hGiven, fun _ => hBefore, by simp [status], by simp [status]⟩
  | @aborted _ failure agrees status error same =>
    refine ⟨course.within, hGiven, by simp [status], fun _ => ⟨_, error, ?_⟩, by simp [status]⟩
    cases agrees with
    | broken own => exact .inl ⟨hBefore, own⟩
    | @failed i reply index _ cause _ ends same =>
      obtain ⟨before, call, thrown, rfl, hReturned, rfl, hCommand⟩ := hBefore
      rw [stepEnd_of_threw] at ends
      cases ends
      exact .inr ⟨before, call, thrown, i.placeAt index, rfl, hReturned, by rw [same, hCommand]⟩

/-- What a journal shows of an item with a given report. -/
structure ItemTrace (r : Resolver) (item : Nat) (n : Node) (report : ItemReport)
    (events : Journal) : Prop where
  position : report.position = item
  node : report.node = n
  calls : ∃ exchanges, events.calls item = exchanges.map Prod.fst ∧
    events.outcomes item = exchanges.map Prod.snd ∧
    CallTrace (n.plan r [] 0).leaves exchanges report

/-- Events in which an item has no part. -/
def Journal.Skips (item : Nat) (events : Journal) : Prop :=
  events.calls item = [] ∧ events.outcomes item = []

namespace ItemTrace

variable {r : Resolver} {item : Nat} {n : Node} {report : ItemReport} {events more : Journal}

theorem append (h : ItemTrace r item n report events) (hMore : more.Skips item) :
    ItemTrace r item n report (events ++ more) := by
  obtain ⟨exchanges, hCalls, hOutcomes, hTrace⟩ := h.calls
  refine ⟨h.position, h.node, exchanges, ?_, ?_, hTrace⟩
  · rw [Journal.calls_append, hMore.1, List.append_nil, hCalls]
  · rw [Journal.outcomes_append, hMore.2, List.append_nil, hOutcomes]

theorem prepend (h : ItemTrace r item n report events) (hMore : more.Skips item) :
    ItemTrace r item n report (more ++ events) := by
  obtain ⟨exchanges, hCalls, hOutcomes, hTrace⟩ := h.calls
  refine ⟨h.position, h.node, exchanges, ?_, ?_, hTrace⟩
  · rw [Journal.calls_append, hMore.1, List.nil_append, hCalls]
  · rw [Journal.outcomes_append, hMore.2, List.nil_append, hOutcomes]

theorem skipped (h : events.Skips item) : ItemTrace r item n (.skipped item n) events := by
  refine ⟨rfl, rfl, [], h.1, h.2, Nat.zero_le _, by simp, ?_, ?_, fun _ => rfl⟩
  · simp [ItemReport.skipped]
  · simp [ItemReport.skipped]

end ItemTrace

namespace Direct

variable {σ : Type} (d : Direct σ)

/-- The program of an item ends with its report, after the calls that the journal shows. -/
theorem runItem_ends {item : Nat} {n : Node} {report : ItemReport} {w w' : World σ}
    (h : d.runItem item n w = (.ok report, w')) : ∃ exchanges events,
      (Program.ofItem d.resolver item n).Ends (exchanges.map replied) (.ok report) ∧
        w'.journal = w.journal ++ events ∧ Journal.Shows item exchanges events := by
  rw [← followTask_ofItem] at h
  obtain ⟨a, w₁, hFollow, hResult⟩ := ok_of_run_bind h
  cases a with
  | error e => cases hResult
  | ok report' =>
    cases hResult
    exact d.ends_of_follow hFollow

theorem eq_skipped_of_getElem? {position k : Nat} {nodes : List Node} {n : Node}
    {report : ItemReport} (hNode : nodes[k]? = some n)
    (hReport : (nodes.mapIdx fun k n => ItemReport.skipped (position + 1 + k) n)[k]? = some report) :
    report = .skipped (position + (k + 1)) n := by
  rw [List.getElem?_mapIdx, hNode] at hReport
  rw [← Option.some.inj hReport, Nat.add_assoc, Nat.add_comm 1 k]

/-- A handler that fails on one command and answers the others with their names. -/
def fussy : Direct Unit :=
  { handler := fun call s =>
      { outcome := if call.command = "REFINE" then .threw (.failure ⟨.value, []⟩)
          else .returned (.text call.command)
        state := s }
    signal := .never }

/-- A chain with a chain and a reference in it, and a command. -/
def teaScript : Script :=
  ⟨[.chain none 1 1
      [.invocation ⟨"SEARCH", some (.literal ["tea"]), .empty, some "search results", 2, 3⟩,
       .chain (some "chain results") 3 3
         [.invocation ⟨"COMPARE", some (.literal ["cup", "pot"]), .empty, some "comparison", 4, 5⟩],
       .invocation
         ⟨"REFINE", some (.reference "search results"), .empty, some "refined text", 5, 3⟩],
    .invocation ⟨"SEARCH", some (.literal ["milk"]), .empty, none, 6, 1⟩]⟩

end Direct

end Directive
