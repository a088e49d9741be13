import Directive.Proofs.Run.Calls
import Directive.Run.Rounds

/-!
# What turns keep, rounds keep

An invariant says something of an item's process once a journal has some events; events in which the
item has no part change nothing about it. If every turn of an item keeps it, so do rounds of many.

* `Turned`: what a turn has to do for that;
* `Upkeep`: what holds of each of some jobs;
* `round_launch`, `round_turns`, `round_drive`: jobs come to their ends with it;
* `round_run`, `round_together`: so do programs, from their first turns to their ends.
-/

namespace Directive

namespace Journal

theorem Skips.nil (item : Nat) : Skips item [] := ⟨rfl, rfl⟩

theorem Skips.noted (item : Nat) (records : List Record) : Skips item (records.map .noted) :=
  ⟨(Shows.noted item records).calls, (Shows.noted item records).outcomes⟩

theorem Skips.entered {item other : Nat} {events : Journal} (differs : item ≠ other) (call : Call)
    (h : events.Skips other) : Skips other (.entered item call :: events) :=
  ⟨by rw [calls, if_neg differs, h.1], h.2⟩

theorem Skips.left {item other : Nat} (differs : item ≠ other) (o : Outcome) :
    Skips other [.left item o] :=
  ⟨rfl, by rw [outcomes, if_neg differs, outcomes]⟩

theorem Skips.append {item : Nat} {events more : Journal} (h : events.Skips item)
    (hMore : more.Skips item) : (events ++ more).Skips item := by
  constructor
  · rw [calls_append, h.1, hMore.1]
    rfl
  · rw [outcomes_append, h.2, hMore.2]
    rfl

end Journal

namespace Rounds

variable {σ α : Type} {c : Rounds σ} {Inv : Nat → Journal → Process σ α → Prop}

theorem enter_journal (c : Rounds σ) (item : Nat) (call : Call) (w : World σ) :
    (c.enter item call w).2.journal = w.journal ++
      .entered item call :: (c.handler call w.outer).records.map .noted := by
  simp [enter, World.add, World.note]

theorem settle_call (unlimited : c.limit = none) (item : Nat) (call : Call)
    (next : Reply → Program α) (w : World σ) :
    c.settle item (.call call next) w =
      c.follow item call next (c.enter item call w).1 (c.enter item call w).2 := by
  rw [settle, unlimited]
  rcases c.enter item call w with ⟨p, w'⟩
  cases p with
  | reply o => rw [follow, unlimited]
  | pause touch more => rfl
  | hang => rfl

/-- What a turn of an item adds to the journal is its own, and the invariant holds behind it; the
journal had `before` of the item. -/
def Turned (Inv : Nat → Journal → Process σ α → Prop) (item : Nat) (before : Journal)
    (w : World σ) (turn : Process σ α × World σ) : Prop :=
  ∃ events, turn.2.journal = w.journal ++ events ∧ Inv item (before ++ events) turn.1 ∧
    ∀ other, other ≠ item → events.Skips other

theorem Turned.still {item : Nat} {before : Journal} {p : Process σ α} (h : Inv item before p)
    (w : World σ) : Turned Inv item before w (p, w) :=
  ⟨[], (List.append_nil _).symm, by rwa [List.append_nil], fun _ _ => .nil _⟩

theorem Turned.prepend {item : Nat} {before front : Journal} {w w' : World σ}
    {turn : Process σ α × World σ} (h : Turned Inv item (before ++ front) w' turn)
    (hJournal : w'.journal = w.journal ++ front)
    (hOthers : ∀ other, other ≠ item → front.Skips other) : Turned Inv item before w turn := by
  obtain ⟨events, hEvents, hInv, hOthers'⟩ := h
  refine ⟨front ++ events, ?_, ?_, fun other hOther => ?_⟩
  · rw [hEvents, hJournal, List.append_assoc]
  · rwa [← List.append_assoc]
  · exact (hOthers other hOther).append (hOthers' other hOther)

/-- Jobs of different items, of which the invariant holds. -/
structure Upkeep (Inv : Nat → Journal → Process σ α → Prop) (events : Journal)
    (js : List (Job σ α)) : Prop where
  distinct : (js.map Job.item).Nodup
  holds : ∀ j ∈ js, Inv j.item events j.process

theorem Upkeep.nil (events : Journal) : Upkeep Inv events [] := ⟨.nil, by simp⟩

/-- What some turns of jobs do; the journal had `before` of them. -/
def Round (Inv : Nat → Journal → Process σ α → Prop) (before : Journal) (items : List Nat)
    (w : World σ) (res : List (Job σ α) × World σ) : Prop :=
  ∃ events, res.2.journal = w.journal ++ events ∧ res.1.map Job.item = items ∧
    Upkeep Inv (before ++ events) res.1 ∧ ∀ other, other ∉ items → events.Skips other

theorem Round.none {before : Journal} {js : List (Job σ α)} (h : Upkeep Inv before js)
    (w : World σ) : Round Inv before (js.map Job.item) w (js, w) :=
  ⟨[], (List.append_nil _).symm, rfl, by rwa [List.append_nil], fun _ _ => .nil _⟩

theorem Round.trans {before : Journal} {items : List Nat} {w : World σ}
    {mid res : List (Job σ α) × World σ} (h : Round Inv before items w mid)
    (hRest : ∀ events, Upkeep Inv events mid.1 →
      Round Inv events (mid.1.map Job.item) mid.2 res) : Round Inv before items w res := by
  obtain ⟨events, hJournal, rfl, hUpkeep, hOthers⟩ := h
  obtain ⟨more, hMore, hSame, hUpkeep', hOthers'⟩ := hRest _ hUpkeep
  refine ⟨events ++ more, ?_, hSame, by rwa [← List.append_assoc], fun other hOther => ?_⟩
  · rw [hMore, hJournal, List.append_assoc]
  · exact (hOthers other hOther).append (hOthers' other hOther)

section Local

variable (stays : ∀ {item before more p}, more.Skips item → Inv item before p →
  Inv item (before ++ more) p)
include stays

theorem Round.cons {item : Nat} {before : Journal} {items : List Nat} {w : World σ}
    {turn : Process σ α × World σ} {res : List (Job σ α) × World σ} (new : item ∉ items)
    (hTurn : Turned Inv item before w turn)
    (hRest : ∀ events, (∀ other ∈ items, events.Skips other) →
      Round Inv (before ++ events) items turn.2 res) :
    Round Inv before (item :: items) w (⟨item, turn.1⟩ :: res.1, res.2) := by
  obtain ⟨events, hJournal, hInv, hOthers⟩ := hTurn
  have hItems : ∀ other ∈ items, events.Skips other := by
    intro other hOther
    exact hOthers other fun same => new (same ▸ hOther)
  obtain ⟨more, hMore, hSame, hUpkeep, hOthers'⟩ := hRest events hItems
  rw [List.append_assoc] at hUpkeep
  refine ⟨events ++ more, ?_, by rw [List.map_cons, hSame], ⟨?_, ?_⟩, fun other hOther => ?_⟩
  · rw [hMore, hJournal, List.append_assoc]
  · exact List.nodup_cons.mpr ⟨hSame ▸ new, hUpkeep.distinct⟩
  · refine List.forall_mem_cons.mpr ⟨?_, hUpkeep.holds⟩
    rw [← List.append_assoc]
    exact stays (hOthers' item new) hInv
  · rw [List.mem_cons, not_or] at hOther
    exact (hOthers other hOther.1).append (hOthers' other hOther.2)

theorem round_turns {turn : Nat → Process σ α → World σ → Process σ α × World σ}
    (hTurn : ∀ item before p w, Inv item before p → Turned Inv item before w (turn item p w))
    {js : List (Job σ α)} {before : Journal} (h : Upkeep Inv before js) (w : World σ) :
    Round Inv before (js.map Job.item) w (turns turn js w) := by
  induction js generalizing before w with
  | nil => exact .none (.nil before) w
  | cons j js ih =>
    obtain ⟨new, distinct⟩ := List.nodup_cons.mp h.distinct
    obtain ⟨hFirst, hOthers⟩ := List.forall_mem_cons.mp h.holds
    refine Round.cons stays new (hTurn _ _ _ w hFirst) fun events hItems => ?_
    refine ih ⟨distinct, fun other hOther => ?_⟩ _
    exact stays (hItems _ (List.mem_map_of_mem hOther)) (hOthers other hOther)

theorem round_launch {tasks : List (Nat × Program α)} (distinct : (tasks.map Prod.fst).Nodup)
    {before : Journal}
    (hTurn : ∀ t ∈ tasks, ∀ more w, more.Skips t.1 →
      Turned Inv t.1 (before ++ more) w (c.settle t.1 t.2 w)) (w : World σ) :
    Round Inv before (tasks.map Prod.fst) w (c.launch tasks w) := by
  induction tasks generalizing before w with
  | nil => exact .none (.nil before) w
  | cons t tasks ih =>
    obtain ⟨new, distinct⟩ := List.nodup_cons.mp distinct
    obtain ⟨hFirst, hOthers⟩ := List.forall_mem_cons.mp hTurn
    have hTurned := hFirst [] w (.nil _)
    rw [List.append_nil] at hTurned
    refine Round.cons stays new hTurned fun events hItems => ?_
    refine ih distinct (fun other hOther more w' hMore => ?_) _
    rw [List.append_assoc]
    exact hOthers other hOther _ w' ((hItems _ (List.mem_map_of_mem hOther)).append hMore)

/-- Rounds go on until no job can move, and the invariant still holds then. -/
theorem round_drive
    (hResume : ∀ item before p w, Inv item before p → Turned Inv item before w (c.resume item p w))
    (hRelieve : ∀ r item before p w, c.relief = some r → Inv item before p →
      Turned Inv item before w (c.relieve r item p w))
    (js : List (Job σ α)) (w : World σ) {before : Journal} (h : Upkeep Inv before js) :
    Round Inv before (js.map Job.item) w (c.drive js w) := by
  fun_induction drive c js w generalizing before with
  | case1 js w moves ih => exact (round_turns stays hResume h w).trans fun events h => ih h
  | case2 js w => exact .none h w
  | case3 js w still r relief hangs ih =>
    exact (round_turns stays (fun item before p w => hRelieve r item before p w relief) h w).trans
      fun events h => ih h
  | case4 js w => exact .none h w

/-- Programs go on from their first turns until none can move, with an invariant that holds of each
at its first turn. -/
theorem round_run
    (hResume : ∀ item before p w, Inv item before p → Turned Inv item before w (c.resume item p w))
    (hRelieve : ∀ r item before p w, c.relief = some r → Inv item before p →
      Turned Inv item before w (c.relieve r item p w))
    {tasks : List (Nat × Program α)} (distinct : (tasks.map Prod.fst).Nodup)
    (hFirst : ∀ t ∈ tasks, ∀ before w, before.Skips t.1 →
      Turned Inv t.1 before w (c.settle t.1 t.2 w)) (w : World σ) :
    Round Inv [] (tasks.map Prod.fst) w
      (c.drive (c.launch tasks w).1 (c.launch tasks w).2) :=
  (round_launch stays distinct (fun t ht more w hMore => hFirst t ht ([] ++ more) w hMore) w).trans
    fun _ h => round_drive stays hResume hRelieve _ _ h

end Local

/-- What tasks side by side give is gathered from jobs that the invariant holds of. -/
theorem round_together {Inv : Nat → Journal → Process σ (Except Escape α) → Prop}
    (stays : ∀ {item before more p}, more.Skips item → Inv item before p →
      Inv item (before ++ more) p)
    (hResume : ∀ item before p w, Inv item before p → Turned Inv item before w (c.resume item p w))
    (hRelieve : ∀ r item before p w, c.relief = some r → Inv item before p →
      Turned Inv item before w (c.relieve r item p w))
    {tasks : List (Nat × Task α)} (distinct : (tasks.map Prod.fst).Nodup)
    (hFirst : ∀ t ∈ tasks, ∀ before w, before.Skips t.1 →
      Turned Inv t.1 before w (c.settle t.1 t.2.run w)) (w : World σ) :
    ∃ js : List (Job σ (Except Escape α)), (c.together tasks w).1 = gather js ∧
      Round Inv [] (tasks.map Prod.fst) w (js, (c.together tasks w).2) := by
  have hItems : (tasks.map fun t => (t.1, t.2.run)).map Prod.fst = tasks.map Prod.fst := by
    rw [List.map_map]
    rfl
  refine ⟨(c.drive (c.launch (tasks.map fun t => (t.1, t.2.run)) w).1
    (c.launch (tasks.map fun t => (t.1, t.2.run)) w).2).1, rfl, ?_⟩
  rw [← hItems] at distinct ⊢
  exact round_run stays hResume hRelieve distinct (List.forall_mem_map.mpr hFirst) w

/-- What jobs give when they are gathered is what each of them has ended with. -/
theorem forall₂_gather {P : Nat → α → Prop} {js : List (Job σ (Except Escape α))}
    {results : List α} (h : gather js = .ok results)
    (hEnd : ∀ j ∈ js, ∀ a, j.process = .ended (.ok a) → P j.item a) :
    (js.map Job.item).Forall₂ P results := by
  induction js generalizing results with
  | nil =>
    cases h
    exact .nil
  | cons j js ih =>
    obtain ⟨hFirst, hOthers⟩ := List.forall_mem_cons.mp hEnd
    obtain ⟨item, process⟩ := j
    rcases process with (e | a) | _
    · cases h
    · rcases hRest : gather js with e | rest
      · rw [gather, hRest] at h
        cases h
      · rw [gather, hRest] at h
        cases h
        exact .cons (hFirst a rfl) (ih hRest hOthers)
    · cases h

/-- What tasks side by side end with, by an invariant that says what it is. -/
theorem forall₂_together {Inv : Nat → Journal → Process σ (Except Escape α) → Prop}
    {P : Nat → Journal → α → Prop}
    (stays : ∀ {item before more p}, more.Skips item → Inv item before p →
      Inv item (before ++ more) p)
    (hResume : ∀ item before p w, Inv item before p → Turned Inv item before w (c.resume item p w))
    (hRelieve : ∀ r item before p w, c.relief = some r → Inv item before p →
      Turned Inv item before w (c.relieve r item p w))
    (hEnd : ∀ item events a, Inv item events (.ended (.ok a)) → P item events a)
    {tasks : List (Nat × Task α)} (distinct : (tasks.map Prod.fst).Nodup)
    (hFirst : ∀ t ∈ tasks, ∀ before w, before.Skips t.1 →
      Turned Inv t.1 before w (c.settle t.1 t.2.run w)) {results : List α} {w w' : World σ}
    (h : c.together tasks w = (.ok results, w')) : ∃ events, w'.journal = w.journal ++ events ∧
      (tasks.map Prod.fst).Forall₂ (fun item a => P item events a) results ∧
        ∀ other, other ∉ tasks.map Prod.fst → events.Skips other := by
  obtain ⟨js, hGather, events, hJournal, hItems, hUpkeep, hOthers⟩ :=
    round_together stays hResume hRelieve distinct hFirst w
  rw [h] at hJournal hGather
  refine ⟨events, hJournal, ?_, hOthers⟩
  rw [← hItems]
  refine forall₂_gather hGather.symm fun j hj a hEnded => hEnd _ _ _ ?_
  rw [← hEnded]
  exact hUpkeep.holds j hj

theorem still_drive (js : List (Job σ α)) (w : World σ) :
    ∀ j ∈ (c.drive js w).1, canMove j.process = false := by
  fun_induction drive c js w with
  | case1 js w moves ih => exact ih
  | case2 js w still => simpa using still
  | case3 js w still r relief hangs ih => exact ih
  | case4 js w still => simpa using still

end Rounds

end Directive
