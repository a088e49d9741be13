import Directive.Proofs.Run.Replies
import Directive.Proofs.Run.Way

/-!
# What runs tell their items

Whatever its kind, a run takes an item along a way through its program, and tells it of its calls what
the journal shows.

* `Program.Made`: each call in the journal stands on such a way;
* `Told`, `Awaits`: where an item stands, between its calls and in the middle of one;
* `Direct.told_follow`: a direct run tells an item nothing else;
* `Rounds.Informed`, `Rounds.informed_settle`, `Rounds.informed_resume`, `Rounds.informed_relieve`:
  neither does a turn.
-/

namespace Directive

open Program (Comes Ends ofItem)

variable {σ α : Type}

/-- Each call that the journal shows of an item stands on a way of its program, along which the item
has heard of its calls what the journal had shown by then. -/
def Program.Made (p : Program α) (item : Nat) (events : Journal) : Prop :=
  ∀ n call, events[n]? = some (.entered item call) →
    ∃ before next, p.Comes before (.call call next) ∧ Journal.Heard item (events.take n) before

/-- An item whose program `p` has come to `q`, as the journal shows. -/
structure Told (p : Program α) (item : Nat) (events : Journal) (calls : List (Call × Reply))
    (q : Program α) : Prop where
  way : p.Comes calls q
  made : p.Made item events
  heard : events.Heard item calls

/-- An item that has made a call behind others, and waits for the reply. -/
structure Awaits (p : Program α) (item : Nat) (events : Journal) (calls : List (Call × Reply))
    (call : Call) (next : Reply → Program α) : Prop where
  way : p.Comes calls (.call call next)
  made : p.Made item events
  heard : ∃ asked, events.Counts item (asked ++ [(call, none)]) ∧ Hears asked calls

theorem Journal.mem_calls {item : Nat} {call : Call} {events : Journal}
    (h : .entered item call ∈ events) : call ∈ events.calls item := by
  obtain ⟨front, back, rfl⟩ := List.append_of_mem h
  rw [calls_append, calls, if_pos rfl]
  exact List.mem_append_right _ List.mem_cons_self

namespace Program.Made

variable {p : Program α} {item : Nat} {events more : Journal}

theorem of_silent (p : Program α) (silent : events.calls item = []) : p.Made item events := by
  intro n call hEvent
  have hCall := Journal.mem_calls (List.mem_of_getElem? hEvent)
  rw [silent] at hCall
  cases hCall

theorem append (h : p.Made item events) (silent : more.calls item = []) :
    p.Made item (events ++ more) := by
  intro n call hEvent
  by_cases hn : n < events.length
  · rw [List.getElem?_append_left hn] at hEvent
    rw [List.take_append_of_le_length (Nat.le_of_lt hn)]
    exact h n call hEvent
  · rw [List.getElem?_append_right (Nat.le_of_not_lt hn)] at hEvent
    have hCall := Journal.mem_calls (List.mem_of_getElem? hEvent)
    rw [silent] at hCall
    cases hCall

theorem prepend (h : p.Made item events) (skips : more.Skips item) : p.Made item (more ++ events) := by
  intro n call hEvent
  by_cases hn : n < more.length
  · rw [List.getElem?_append_left hn] at hEvent
    have hCall := Journal.mem_calls (List.mem_of_getElem? hEvent)
    rw [skips.1] at hCall
    cases hCall
  · have hFront := Nat.le_of_not_lt hn
    rw [List.getElem?_append_right hFront] at hEvent
    obtain ⟨before, next, way, heard⟩ := h _ call hEvent
    refine ⟨before, next, way, ?_⟩
    rw [List.take_append, List.take_of_length_le hFront]
    exact heard.prepend skips

/-- An item makes a call. -/
theorem call {calls : List (Call × Reply)} {call : Call} {next : Reply → Program α}
    (h : p.Made item events) (way : p.Comes calls (.call call next))
    (heard : events.Heard item calls) : p.Made item (events ++ [.entered item call]) := by
  intro n other hEvent
  by_cases hn : n < events.length
  · rw [List.getElem?_append_left hn] at hEvent
    rw [List.take_append_of_le_length (Nat.le_of_lt hn)]
    exact h n other hEvent
  · have hBehind := Nat.le_of_not_lt hn
    rw [List.getElem?_append_right hBehind, List.getElem?_singleton] at hEvent
    split at hEvent
    · cases hEvent
      have hLast : n = events.length := by omega
      rw [hLast, List.take_left]
      exact ⟨calls, next, way, heard⟩
    · cases hEvent

end Program.Made

namespace Told

variable {p : Program α} {item : Nat} {events more : Journal} {calls : List (Call × Reply)}

theorem start (p : Program α) (skips : events.Skips item) : Told p item events [] p :=
  ⟨.here, .of_silent p skips.1, .nothing skips⟩

theorem append {q : Program α} (h : Told p item events calls q) (skips : more.Skips item) :
    Told p item (events ++ more) calls q :=
  ⟨h.way, h.made.append skips.1, h.heard.append skips⟩

theorem noted {records : List Record} {next : Program α}
    (h : Told p item events calls (.note records next)) :
    Told p item (events ++ records.map .noted) calls next :=
  Told.append ⟨h.way.noted, h.made, h.heard⟩ (.noted item records)

theorem looked {next : Bool → Program α} (h : Told p item events calls (.look next)) (stop : Bool) :
    Told p item events calls (next stop) :=
  ⟨h.way.looked stop, h.made, h.heard⟩

variable {call : Call} {next : Reply → Program α}

theorem entered (h : Told p item events calls (.call call next)) (records : List Record) :
    Awaits p item (events ++ .entered item call :: records.map .noted) calls call next := by
  obtain ⟨asked, hCounts, hHears⟩ := h.heard
  refine ⟨h.way, ?_, asked, hCounts.entered call records, hHears⟩
  rw [List.append_cons]
  exact (h.made.call h.way h.heard).append (Journal.Skips.noted item records).1

/-- The limit of a call has passed before it could be made. -/
theorem overdue (h : Told p item events calls (.call call next)) (seconds : Binary64) :
    Told p item events (calls ++ [(call, .timedOut seconds)]) (next (.timedOut seconds)) :=
  ⟨h.way.called _, h.made, h.heard.overdue call seconds⟩

end Told

namespace Awaits

variable {p : Program α} {item : Nat} {events more : Journal} {calls : List (Call × Reply)}
  {call : Call} {next : Reply → Program α}

theorem append (h : Awaits p item events calls call next) (skips : more.Skips item) :
    Awaits p item (events ++ more) calls call next := by
  obtain ⟨asked, hCounts, hHears⟩ := h.heard
  exact ⟨h.way, h.made.append skips.1, asked, hCounts.append skips, hHears⟩

/-- The call has come to an outcome, and the item goes on with what it hears of that. -/
theorem left (h : Awaits p item events calls call next) {r : Reply} {o : Outcome}
    (conveys : r.Conveys (some o)) :
    Told p item (events ++ [.left item o]) (calls ++ [(call, r)]) (next r) := by
  obtain ⟨asked, hCounts, hHears⟩ := h.heard
  exact ⟨h.way.called r, h.made.append rfl, _, hCounts.left o, .reply hHears conveys call⟩

/-- The call has been answered without an outcome. -/
theorem unanswered (h : Awaits p item events calls call next) {r : Reply}
    (conveys : r.Conveys none) : Told p item events (calls ++ [(call, r)]) (next r) := by
  obtain ⟨asked, hCounts, hHears⟩ := h.heard
  exact ⟨h.way.called r, h.made, _, hCounts, .reply hHears conveys call⟩

end Awaits

/-- On the way through a program, what ran added to the journal tells the item how its calls ended,
up to the result if there is one, and says nothing of others. -/
def TellsOn (p : Program α) (item : Nat) (before : Journal) (w : World σ)
    (ran : Except Escape α × World σ) : Prop :=
  ∃ events, ran.2.journal = w.journal ++ events ∧
    (∀ other, other ≠ item → events.Skips other) ∧ p.Made item (before ++ events) ∧
    ∀ a, ran.1 = .ok a → ∃ calls, Told p item (before ++ events) calls (.done a)

theorem TellsOn.prepend {p : Program α} {item : Nat} {before front : Journal} {w w₁ : World σ}
    {ran : Except Escape α × World σ} (h : TellsOn p item (before ++ front) w₁ ran)
    (journal : w₁.journal = w.journal ++ front)
    (others : ∀ other, other ≠ item → front.Skips other) : TellsOn p item before w ran := by
  obtain ⟨events, hJournal, hOthers, hRest⟩ := h
  refine ⟨front ++ events, ?_, ?_, ?_⟩
  · rw [hJournal, journal, List.append_assoc]
  · exact fun other hOther => (others other hOther).append (hOthers other hOther)
  · rwa [← List.append_assoc]

namespace Direct

variable (d : Direct σ)

/-- A direct run of a program tells it how its calls ended, one after another. -/
theorem told_follow {p q : Program α} {item : Nat} {before : Journal}
    {calls : List (Call × Reply)} (h : Told p item before calls q) (w : World σ) :
    TellsOn p item before w (d.follow item q w) := by
  induction q generalizing before calls w with
  | done a =>
    refine ⟨[], (List.append_nil _).symm, fun _ _ => .nil _, ?_, ?_⟩
    · rw [List.append_nil]
      exact h.made
    · rintro _ ⟨⟩
      rw [List.append_nil]
      exact ⟨calls, h⟩
  | note records next ih =>
    exact (ih h.noted (w.note records)).prepend rfl fun other _ => .noted other records
  | look next ih =>
    exact ih (d.signal w.outer).1 (h.looked _) { w with outer := (d.signal w.outer).2 }
  | call call next ih =>
    obtain ⟨o, w₁, hEnter, records, hEntered⟩ := d.enter_eq item call w
    have hOthers : ∀ other, other ≠ item →
        Journal.Skips other (.entered item call :: records.map .noted ++ [.left item o]) :=
      fun other hOther => (Journal.Skips.entered hOther.symm call (.noted other records)).append
        (.left hOther.symm o)
    have hTold := (h.entered records).left (.outcome o)
    rw [List.append_assoc] at hTold
    have hFollow := (ih _ hTold w₁).prepend hEntered hOthers
    rw [follow, run_bind_of_ok hEnter]
    rcases o with value | (f | f | reasons)
    · exact hFollow
    · exact hFollow
    · exact hFollow
    · -- the handler gives up, and the run with it
      exact ⟨_, hEntered, hOthers, hTold.made, by rintro a ⟨⟩⟩

end Direct

namespace Rounds

variable {c : Rounds σ} {programs : Nat → Program α} {item : Nat} {before : Journal}
  {calls : List (Call × Reply)}

/-- An item in the course of a run in rounds has been told what the journal shows, or will be told
the rest when its time has come. -/
inductive Informed (programs : Nat → Program α) (item : Nat) (events : Journal) :
    Process σ α → Prop
  | ended {calls : List (Call × Reply)} {a : α}
      (told : Told (programs item) item events calls (.done a)) :
      Informed programs item events (.ended a)
  | starting {calls : List (Call × Reply)} {call : Call} {next : Reply → Program α}
      (told : Told (programs item) item events calls (.call call next)) :
      Informed programs item events (.waiting call .starting next)
  | working {calls : List (Call × Reply)} {call : Call} {p : Pending σ} {next : Reply → Program α}
      (awaits : Awaits (programs item) item events calls call next) :
      Informed programs item events (.waiting call (.working p) next)
  | ending {calls : List (Call × Reply)} {call : Call} {turns : Nat} {r : Reply}
      {next : Reply → Program α} (told : Told (programs item) item events calls (next r)) :
      Informed programs item events (.waiting call (.ending turns r) next)

theorem Informed.stays {more : Journal} {p : Process σ α} (skips : more.Skips item)
    (h : Informed programs item before p) : Informed programs item (before ++ more) p := by
  cases h with
  | ended told => exact .ended (told.append skips)
  | starting told => exact .starting (told.append skips)
  | working awaits => exact .working (awaits.append skips)
  | ending told => exact .ending (told.append skips)

theorem Informed.made {events : Journal} {p : Process σ α} (h : Informed programs item events p) :
    (programs item).Made item events := by
  cases h with
  | ended told => exact told.made
  | starting told => exact told.made
  | working awaits => exact awaits.made
  | ending told => exact told.made

/-- How a call goes on from some point if its item goes on well behind it. -/
theorem informed_follow {call : Call} {next : Reply → Program α}
    (h : Awaits (programs item) item before calls call next)
    (hNext : ∀ r events calls w, Told (programs item) item events calls (next r) →
      Turned (Informed programs) item events w (c.settle item (next r) w))
    (p : Pending σ) (w : World σ) :
    Turned (Informed programs) item before w (c.follow item call next p w) := by
  cases p with
  | pause touch more => exact .still (.working h) w
  | hang => exact .still (.working h) w
  | reply o =>
    have hOthers : ∀ other, other ≠ item → Journal.Skips other [.left item o] :=
      fun other hOther => .left hOther.symm o
    rw [follow]
    rcases c.limit with _ | seconds
    · exact (hNext _ _ _ _ (h.left (.outcome o))).prepend rfl hOthers
    · exact ⟨[.left item o], rfl, .ending (h.left (conveys_heard seconds o)), hOthers⟩

theorem informed_settle {q : Program α} (h : Told (programs item) item before calls q)
    (w : World σ) : Turned (Informed programs) item before w (c.settle item q w) := by
  induction q generalizing before calls w with
  | done a => exact .still (.ended h) w
  | note records next ih =>
    exact (ih h.noted (w.note records)).prepend rfl fun other _ => .noted other records
  | look next ih => exact ih _ (h.looked _) _
  | call call next ih =>
    rcases hLimit : c.limit with _ | seconds
    · have hFollow := informed_follow (h.entered (c.handler call w.outer).records)
        (fun r events calls w h => ih r h w) (c.enter item call w).1 (c.enter item call w).2
      rw [settle_call hLimit]
      exact hFollow.prepend (enter_journal c item call w) fun other hOther =>
        .entered hOther.symm call (.noted other _)
    · rw [settle, hLimit]
      dsimp only
      split
      · exact .still (.ending (h.overdue seconds)) w
      · exact .still (.starting h) w

theorem informed_resume {p : Process σ α} (h : Informed programs item before p) (w : World σ) :
    Turned (Informed programs) item before w (c.resume item p w) := by
  have hFollow {calls : List (Call × Reply)} {call : Call} {next : Reply → Program α}
      {events : Journal} (h : Awaits (programs item) item events calls call next) (p : Pending σ)
      (w : World σ) : Turned (Informed programs) item events w (c.follow item call next p w) :=
    informed_follow h (fun _ _ _ w h => informed_settle h w) p w
  cases h with
  | ended told => exact .still (.ended told) w
  | starting told =>
    exact (hFollow (told.entered _) _ _).prepend (enter_journal c item _ w)
      fun other hOther => .entered hOther.symm _ (.noted other _)
  | @working _ _ p _ awaits =>
    cases p with
    | reply o => exact hFollow awaits (.reply o) w
    | pause touch more => exact hFollow awaits (more w.outer) { w with outer := touch w.outer }
    | hang => exact .still (.working awaits) w
  | @ending _ _ turns _ _ told =>
    cases turns with
    | zero => exact informed_settle told w
    | succ turns => exact .still (.ending told) w

/-- A call that never ends is answered all the same. -/
theorem informed_relieve {p : Process σ α} {r : Reply} (relief : c.relief = some r)
    (h : Informed programs item before p) (w : World σ) :
    Turned (Informed programs) item before w (c.relieve r item p w) := by
  cases h with
  | ended told => exact .still (.ended told) w
  | starting told => exact .still (.starting told) w
  | @working _ _ p _ awaits =>
    cases p with
    | reply o => exact .still (.working awaits) w
    | pause touch more => exact .still (.working awaits) w
    | hang => exact informed_settle (awaits.unanswered (conveys_relief relief)) w
  | ending told => exact .still (.ending told) w

/-- Tasks are informed from their first turns on. -/
theorem informed_first {tasks : List (Nat × Task α)} {programs : Nat → Task α}
    (hTasks : ∀ t ∈ tasks, t.2 = programs t.1) : ∀ t ∈ tasks, ∀ before w, before.Skips t.1 →
      Turned (Informed programs) t.1 before w (c.settle t.1 t.2.run w) := by
  intro t ht before w skips
  have hTold : Told (programs t.1) t.1 before [] t.2 := hTasks t ht ▸ .start t.2 skips
  exact informed_settle hTold w

end Rounds

end Directive
