import Directive.Proofs.Run.Answered
import Directive.Proofs.Run.Upkeep

/-!
# Steady runs in rounds

A run is steady if what its handler answers depends on the call only and nothing stops it. Then
every turn of an item brings it nearer to what its program comes to, whatever the others do.

* `Process.Leads`: what a process comes to, and the calls that are left of it;
* `takesTurn_settle`, `takesTurn_resume`: a turn makes the next of these calls and no others;
* `Underway`: an item that has made some of its calls, as the journal shows, which turns keep;
* `rounds_end`: what programs come to side by side.
-/

namespace Directive

variable {σ α : Type}

/-- A call that replies after some pauses, with the same outcome in every state. -/
inductive Pending.RepliesWith (o : Outcome) : Pending σ → Prop
  | reply : RepliesWith o (.reply o)
  | pause {touch : σ → σ} {more : σ → Pending σ} (rest : ∀ s, RepliesWith o (more s)) :
      RepliesWith o (.pause touch more)

namespace Rounds

/-- Every call comes to an outcome that depends on the call only, after any pauses, and nothing
stops the run. -/
structure Steady (c : Rounds σ) (answer : Call → Outcome) : Prop where
  replies : ∀ call s, (c.handler call s).pending.RepliesWith (answer call)
  unstopped : ∀ s, (c.signal s).1 = false
  unlimited : c.limit = none
  goesOn : c.stopOnError = false

end Rounds

/-- What a process comes to, and the calls that it still makes. -/
inductive Process.Leads (answer : Call → Outcome) : Process σ α → α → List Call → Prop
  | ended {a : α} : Leads answer (.ended a) a []
  | working {call : Call} {p : Pending σ} {next : Reply → Program α}
      (replies : p.RepliesWith (answer call)) :
      Leads answer (.waiting call (.working p) next)
        ((next (.outcome (answer call))).answered answer).1
        ((next (.outcome (answer call))).answered answer).2

namespace Rounds

/-- A turn of an item that is to make some calls: it makes the first of them, and no other item
makes any. -/
def TakesTurn (answer : Call → Outcome) (item : Nat) (a : α) (calls : List Call) (w : World σ)
    (turn : Process σ α × World σ) : Prop :=
  ∃ events later, turn.2.journal = w.journal ++ events ∧ turn.1.Leads answer a later ∧
    calls = events.calls item ++ later ∧ ∀ other, other ≠ item → events.Skips other

variable {c : Rounds σ} {answer : Call → Outcome} {item : Nat} {a : α} {calls : List Call}

theorem TakesTurn.prepend {w w' : World σ} {turn : Process σ α × World σ} {front : Journal}
    (h : TakesTurn answer item a calls w' turn) (hJournal : w'.journal = w.journal ++ front)
    (hOthers : ∀ other, other ≠ item → front.Skips other) :
    TakesTurn answer item a (front.calls item ++ calls) w turn := by
  obtain ⟨events, later, hEvents, hLeads, rfl, hOthers'⟩ := h
  refine ⟨front ++ events, later, ?_, hLeads, ?_, fun other hOther => ?_⟩
  · rw [hEvents, hJournal, List.append_assoc]
  · rw [Journal.calls_append, List.append_assoc]
  · exact (hOthers other hOther).append (hOthers' other hOther)

/-- How a call goes on from some point if its item goes on well behind it. -/
theorem takesTurn_follow_of (steady : c.Steady answer) {call : Call} {next : Reply → Program α}
    (hNext : ∀ w, TakesTurn answer item ((next (.outcome (answer call))).answered answer).1
      ((next (.outcome (answer call))).answered answer).2 w
      (c.settle item (next (.outcome (answer call))) w))
    {p : Pending σ} (replies : p.RepliesWith (answer call)) (w : World σ) :
    TakesTurn answer item ((next (.outcome (answer call))).answered answer).1
      ((next (.outcome (answer call))).answered answer).2 w (c.follow item call next p w) := by
  cases replies with
  | reply =>
    have hLeft : (w.add [.left item (answer call)]).journal =
        w.journal ++ [.left item (answer call)] := rfl
    rw [follow, steady.unlimited]
    exact (hNext _).prepend hLeft fun other hOther => .left hOther.symm (answer call)
  | pause rest =>
    exact ⟨[], _, (List.append_nil _).symm, .working (.pause rest), rfl, fun _ _ => .nil _⟩

theorem takesTurn_settle (steady : c.Steady answer) (p : Program α) (w : World σ) :
    TakesTurn answer item (p.answered answer).1 (p.answered answer).2 w (c.settle item p w) := by
  induction p generalizing w with
  | done a => exact ⟨[], [], (List.append_nil _).symm, .ended, rfl, fun _ _ => .nil _⟩
  | note records next ih =>
    have h := TakesTurn.prepend (w := w) (ih (w.note records)) rfl fun other _ =>
      .noted other records
    rwa [(Journal.Skips.noted item records).1] at h
  | look next ih =>
    have hLook : c.settle item (.look next) w =
        c.settle item (next (c.signal w.outer).1) { w with outer := (c.signal w.outer).2 } := rfl
    rw [hLook, steady.unstopped]
    exact ih false _
  | call call next ih =>
    rw [settle_call steady.unlimited]
    have h := takesTurn_follow_of steady (fun w => ih (.outcome (answer call)) w)
      (steady.replies call w.outer) (c.enter item call w).2
    have hMade := h.prepend (enter_journal c item call w) fun other hOther =>
      .entered hOther.symm call (.noted other _)
    rw [Journal.calls, if_pos rfl, (Journal.Skips.noted item _).1] at hMade
    exact hMade

theorem takesTurn_resume (steady : c.Steady answer) {p : Process σ α}
    (h : p.Leads answer a calls) (w : World σ) :
    TakesTurn answer item a calls w (c.resume item p w) := by
  cases h with
  | ended => exact ⟨[], [], (List.append_nil _).symm, .ended, rfl, fun _ _ => .nil _⟩
  | working replies =>
    cases replies with
    | reply => exact takesTurn_follow_of steady (takesTurn_settle steady _) .reply w
    | @pause touch more rest =>
      exact takesTurn_follow_of steady (takesTurn_settle steady _) (rest w.outer)
        { w with outer := touch w.outer }

/-- An item that is to come to its goal, with the calls that a journal does not show yet. -/
def Underway (answer : Call → Outcome) (goal : Nat → α × List Call) (item : Nat)
    (events : Journal) (p : Process σ α) : Prop :=
  ∃ later, p.Leads answer (goal item).1 later ∧ (goal item).2 = events.calls item ++ later

variable {goal : Nat → α × List Call}

theorem Underway.stays {before more : Journal} {p : Process σ α} (skips : more.Skips item)
    (h : Underway answer goal item before p) : Underway answer goal item (before ++ more) p := by
  obtain ⟨later, hLeads, hGoal⟩ := h
  exact ⟨later, hLeads, by rw [Journal.calls_append, skips.1, List.append_nil, hGoal]⟩

theorem turned_of_takesTurn {before : Journal} {w : World σ} {turn : Process σ α × World σ}
    (made : (goal item).2 = before.calls item ++ calls)
    (h : TakesTurn answer item (goal item).1 calls w turn) :
    Turned (Underway answer goal) item before w turn := by
  obtain ⟨events, later, hJournal, hLeads, rfl, hOthers⟩ := h
  refine ⟨events, hJournal, ⟨later, hLeads, ?_⟩, hOthers⟩
  rw [Journal.calls_append, made, List.append_assoc]

theorem ended_of_leads {p : Process σ α} (h : p.Leads answer a calls) (stays : canMove p = false) :
    p = .ended a ∧ calls = [] := by
  cases h with
  | ended => exact ⟨rfl, rfl⟩
  | working replies => cases replies <;> cases stays

/-- No call of a steady run hangs, so there is nothing to relieve. -/
theorem relieve_of_leads {p : Process σ α} (h : p.Leads answer a calls) (r : Reply)
    (w : World σ) : c.relieve r item p w = (p, w) := by
  cases h with
  | ended => rfl
  | working replies => cases replies <;> rfl

theorem round_steady (steady : c.Steady answer) {tasks : List (Nat × Program α)}
    (distinct : (tasks.map Prod.fst).Nodup) (hGoal : ∀ t ∈ tasks, t.2.answered answer = goal t.1)
    (w : World σ) : Round (Underway answer goal) [] (tasks.map Prod.fst) w
      (c.drive (c.launch tasks w).1 (c.launch tasks w).2) := by
  refine round_run Underway.stays ?_ ?_ distinct (fun t ht before w skips => ?_) w
  · rintro item before p w ⟨later, hLeads, hGoal⟩
    exact turned_of_takesTurn hGoal (takesTurn_resume steady hLeads w)
  · rintro r item before p w - hUnderway
    rw [relieve_of_leads hUnderway.choose_spec.1]
    exact .still hUnderway w
  · have hTurn : TakesTurn answer t.1 _ _ w (c.settle t.1 t.2 w) := takesTurn_settle steady t.2 w
    rw [hGoal t ht] at hTurn
    exact turned_of_takesTurn (by rw [skips.1]; rfl) hTurn

/-- Programs in rounds come to what each comes to by itself, with the same calls. -/
theorem rounds_end (steady : c.Steady answer) (goal : Nat → α × List Call)
    {tasks : List (Nat × Program α)} (distinct : (tasks.map Prod.fst).Nodup)
    (hGoal : ∀ t ∈ tasks, t.2.answered answer = goal t.1)
    (w : World σ) {res : List (Job σ α) × World σ}
    (hRes : c.drive (c.launch tasks w).1 (c.launch tasks w).2 = res) :
    ∃ events, res.2.journal = w.journal ++ events ∧ res.1.map Job.item = tasks.map Prod.fst ∧
      (∀ j ∈ res.1, j.process = .ended (goal j.item).1 ∧ events.calls j.item = (goal j.item).2) ∧
        ∀ other, other ∉ tasks.map Prod.fst → events.calls other = [] := by
  subst hRes
  obtain ⟨events, hJournal, hItems, hUpkeep, hOthers⟩ := round_steady steady distinct hGoal w
  refine ⟨events, hJournal, hItems, fun j hj => ?_, fun other hOther => (hOthers other hOther).1⟩
  obtain ⟨later, hLeads, hCalls⟩ := hUpkeep.holds j hj
  obtain ⟨hEnded, rfl⟩ := ended_of_leads hLeads (still_drive _ _ j hj)
  rw [List.append_nil, List.nil_append] at hCalls
  exact ⟨hEnded, hCalls.symm⟩

end Rounds

end Directive
