import Directive.Proofs.Run.Told

/-!
# Runs of scripts

* `Script.Runs`: the runs of a script, with what they come to and add to the journal;
* `inOrder_faithful`, `Rounds.runTogether_faithful`: items one after another, and side by side;
* `Script.Runs.made`: every call of a run stands on a way of its item.
-/

namespace Directive

open Program (Comes Ends ofItem)

variable {σ α : Type}

/-- The runs of a script: direct ones and those in rounds, however they are set up. -/
inductive Script.Runs (r : Resolver) (s : Script) : Except Escape Report → Journal → Prop
  | direct {σ : Type} {d : Direct σ} {stopOnError : Bool} {w w' : World σ}
      {res : Except Escape Report} {events : Journal} (resolver : d.resolver = r)
      (run : d.runScript stopOnError s w = (res, w')) (journal : w'.journal = w.journal ++ events) :
      Runs r s res events
  | rounds {σ : Type} {c : Rounds σ} {w w' : World σ} {res : Except Escape Report}
      {events : Journal} (resolver : c.resolver = r) (run : c.runScript s w = (res, w'))
      (journal : w'.journal = w.journal ++ events) : Runs r s res events

/-- What a journal shows of some items, the first of which has the given position. -/
structure Shown (r : Resolver) (position : Nat) (nodes : List Node) (events : Journal) : Prop where
  made : ∀ k n, nodes[k]? = some n → (ofItem r (position + k) n).Made (position + k) events
  others : ∀ other, other < position → events.Skips other

/-- What a run of some items has to do to be true to their programs. -/
def Faithful (r : Resolver) (position : Nat) (nodes : List Node) (w : World σ)
    (ran : Except Escape (List ItemReport) × World σ) : Prop :=
  ∃ events, ran.2.journal = w.journal ++ events ∧ Shown r position nodes events

/-- What a run of one item has to do for that. -/
def ItemFaithful (r : Resolver) (item : Nat) (n : Node) (w : World σ)
    (ran : Except Escape ItemReport × World σ) : Prop :=
  ∃ events, ran.2.journal = w.journal ++ events ∧ (ofItem r item n).Made item events ∧
    ∀ other, other ≠ item → events.Skips other

section Items

variable {r : Resolver} {position : Nat} {node : Node} {nodes : List Node}
  {events later : Journal}

theorem Shown.nil (r : Resolver) (position : Nat) (nodes : List Node) :
    Shown r position nodes [] :=
  ⟨fun _ _ _ => .of_silent _ rfl, fun _ _ => .nil _⟩

theorem Shown.cons (made : (ofItem r position node).Made position events)
    (others : ∀ other, other ≠ position → events.Skips other)
    (h : Shown r (position + 1) nodes later) : Shown r position (node :: nodes) (events ++ later) := by
  constructor
  · intro k n hNode
    cases k with
    | zero =>
      cases hNode
      exact made.append (h.others _ (Nat.lt_succ_self _)).1
    | succ k =>
      have hMade := h.made k n hNode
      rw [Nat.add_right_comm] at hMade
      exact hMade.prepend (others _ (by omega))
  · intro other hOther
    exact (others other (by omega)).append (h.others other (by omega))

end Items

theorem run_bind_of_error {β : Type} {x : Run σ α} {e : Escape} {w w' : World σ}
    (h : x w = (.error e, w')) (f : α → Run σ β) : (x >>= f) w = (.error e, w') := by
  change ExceptT.bindCont f (x w).1 (x w).2 = _
  rw [h]
  rfl

/-- Items one after another, each run in a given way. Once one has failed the rest may have to be
skipped. -/
def inOrder (runItem : Nat → Node → Run σ ItemReport) (stopOnError : Bool) :
    Nat → List Node → Run σ (List ItemReport)
  | _, [] => return []
  | position, node :: nodes => do
    let report ← runItem position node
    if stopOnError && report.status = .aborted then
      return report :: nodes.mapIdx fun k n => .skipped (position + 1 + k) n
    else return report :: (← inOrder runItem stopOnError (position + 1) nodes)

theorem Direct.runItems_eq_inOrder (d : Direct σ) (stopOnError : Bool) (position : Nat)
    (nodes : List Node) :
    d.runItems stopOnError position nodes = inOrder d.runItem stopOnError position nodes := by
  induction nodes generalizing position with
  | nil => rfl
  | cons node nodes ih => rw [runItems, inOrder, ih]

theorem Rounds.runItems_eq_inOrder (c : Rounds σ) (position : Nat) (nodes : List Node) :
    c.runItems position nodes = inOrder c.runItem c.stopOnError position nodes := by
  induction nodes generalizing position with
  | nil => rfl
  | cons node nodes ih => rw [runItems, inOrder, ih]

/-- If each item is run faithfully, so are items one after another. -/
theorem inOrder_faithful {r : Resolver} {runItem : Nat → Node → Run σ ItemReport}
    (hItem : ∀ position n w, ItemFaithful r position n w (runItem position n w))
    (stopOnError : Bool) (position : Nat) (nodes : List Node) (w : World σ) :
    Faithful r position nodes w (inOrder runItem stopOnError position nodes w) := by
  induction nodes generalizing position w with
  | nil => exact ⟨[], (List.append_nil _).symm, .nil r position []⟩
  | cons node nodes ih =>
    obtain ⟨events, hJournal, hMade, hOthers⟩ := hItem position node w
    have hFirst : Shown r position (node :: nodes) events := by
      have hShown := Shown.cons hMade hOthers (.nil r (position + 1) nodes)
      rwa [List.append_nil] at hShown
    rw [inOrder]
    rcases hRan : runItem position node w with ⟨e | report, w₁⟩
    · rw [hRan] at hJournal
      rw [run_bind_of_error hRan]
      exact ⟨events, hJournal, hFirst⟩
    · rw [hRan] at hJournal
      rw [run_bind_of_ok hRan]
      split
      · exact ⟨events, hJournal, hFirst⟩
      · obtain ⟨later, hLater, hShown⟩ := ih (position + 1) w₁
        have hAll := Shown.cons hMade hOthers hShown
        rcases hRest : inOrder runItem stopOnError (position + 1) nodes w₁ with ⟨e | reports, w₂⟩
        · rw [hRest] at hLater
          rw [run_bind_of_error hRest]
          exact ⟨events ++ later, by rw [hLater, hJournal, List.append_assoc], hAll⟩
        · rw [hRest] at hLater
          rw [run_bind_of_ok hRest]
          exact ⟨events ++ later, hLater.trans (by rw [hJournal, List.append_assoc]), hAll⟩

theorem Direct.runItem_faithful (d : Direct σ) (item : Nat) (n : Node) (w : World σ) :
    ItemFaithful d.resolver item n w (d.runItem item n w) := by
  obtain ⟨events, hJournal, hOthers, hMade, -⟩ :=
    d.told_follow (.start (ofItem d.resolver item n) (.nil item)) w
  refine ⟨events, ?_, hMade, hOthers⟩
  rw [← hJournal, ← followTask_ofItem, followTask]
  rcases hFollow : d.follow item (ofItem d.resolver item n) w with ⟨e | res, w'⟩
  · rw [run_bind_of_error hFollow]
  · rw [run_bind_of_ok hFollow]
    cases res <;> rfl

namespace Rounds

/-- Tasks side by side are told of their calls and nothing else. -/
theorem together_made (c : Rounds σ) (tasks : List (Nat × Task α)) (programs : Nat → Task α)
    (distinct : (tasks.map Prod.fst).Nodup) (hTasks : ∀ t ∈ tasks, t.2 = programs t.1) (w : World σ) :
    ∃ events, (c.together tasks w).2.journal = w.journal ++ events ∧
      (∀ t ∈ tasks, Program.Made (programs t.1) t.1 events) ∧
      ∀ other, other ∉ tasks.map Prod.fst → events.Skips other := by
  obtain ⟨js, -, events, hJournal, hItems, hUpkeep, hOthers⟩ :=
    round_together Informed.stays (fun _ _ _ w h => informed_resume h w)
      (fun _ _ _ _ w relief h => informed_relieve relief h w) distinct (informed_first hTasks) w
  refine ⟨events, hJournal, fun t ht => ?_, hOthers⟩
  obtain ⟨j, hj, hItem⟩ := List.mem_map.mp (hItems ▸ List.mem_map_of_mem ht)
  rw [← hItem]
  exact (hUpkeep.holds j hj).made

theorem runItem_faithful (c : Rounds σ) (item : Nat) (n : Node) (w : World σ) :
    ItemFaithful c.resolver item n w (c.runItem item n w) := by
  obtain ⟨events, hJournal, hMade, hOthers⟩ :=
    c.together_made [(item, ofItem c.resolver item n)] (fun k => ofItem c.resolver k n) (by simp)
      (List.forall_mem_singleton.mpr rfl) w
  refine ⟨events, ?_, hMade _ (List.mem_singleton_self _),
    fun other hOther => hOthers other (by simpa using hOther)⟩
  rw [← hJournal, runItem]
  rcases hRan : c.together [(item, ofItem c.resolver item n)] w with ⟨e | results, w'⟩
  · rw [run_bind_of_error hRan]
  · rw [run_bind_of_ok hRan]
    cases results <;> rfl

/-- The program of the item at a position. -/
def programAt (r : Resolver) (nodes : List Node) (item : Nat) : Task ItemReport :=
  ofItem r item (nodes.getD item (.chain none 0 0 []))

theorem programAt_eq (r : Resolver) {nodes : List Node} {k : Nat} {n : Node}
    (hNode : nodes[k]? = some n) : programAt r nodes k = ofItem r k n := by
  simp [programAt, hNode]

/-- The items of a script side by side, each with the program at its position. -/
theorem tasks_mapIdx (r : Resolver) (nodes : List Node) {tasks : List (Nat × Task ItemReport)}
    (hTasks : tasks = nodes.mapIdx fun k n => (k, ofItem r k n)) :
    tasks.map Prod.fst = List.range nodes.length ∧ ∀ t ∈ tasks, t.2 = programAt r nodes t.1 := by
  subst hTasks
  refine ⟨List.ext_getElem (by simp) fun k _ _ => by simp, fun t ht => ?_⟩
  obtain ⟨k, hk, rfl⟩ := List.mem_mapIdx.mp ht
  exact (programAt_eq r (List.getElem?_eq_getElem hk)).symm

/-- What is so of each of the first positions and what belongs to it. -/
theorem of_forall₂_range {β : Type} {P : Nat → β → Prop} {n : Nat} {bs : List β}
    (h : (List.range n).Forall₂ P bs) {k : Nat} {b : β} (hGet : bs[k]? = some b) : P k b := by
  obtain ⟨hk, rfl⟩ := List.getElem?_eq_some_iff.mp hGet
  have hItem := h.get (i := k) (h.length_eq ▸ hk) hk
  rwa [List.get_eq_getElem, List.getElem_range] at hItem

theorem runTogether_faithful (c : Rounds σ) (nodes : List Node) (w : World σ) :
    Faithful c.resolver 0 nodes w (c.runTogether nodes w) := by
  obtain ⟨hItems, hTasks⟩ := tasks_mapIdx c.resolver nodes rfl
  obtain ⟨events, hJournal, hMade, -⟩ :=
    c.together_made _ (programAt c.resolver nodes) (hItems ▸ List.nodup_range) hTasks w
  refine ⟨events, hJournal, fun k n hNode => ?_, by simp⟩
  have hTask :
      (k, ofItem c.resolver k n) ∈ nodes.mapIdx fun k n => (k, ofItem c.resolver k n) := by
    obtain ⟨hk, rfl⟩ := List.getElem?_eq_some_iff.mp hNode
    exact List.mem_mapIdx.mpr ⟨k, hk, rfl⟩
  have hItem := hMade _ hTask
  rw [programAt_eq c.resolver hNode] at hItem
  rwa [Nat.zero_add]

end Rounds

namespace Script.Runs

variable {r : Resolver} {s : Script} {res : Except Escape Report} {events : Journal}

/-- A run is true to the programs of the items of its script. -/
theorem shown (h : s.Runs r res events) : Shown r 0 s.items events := by
  have hScript {σ : Type} {runItems : Run σ (List ItemReport)} {w w' : World σ}
      (hItems : Faithful r 0 s.items w (runItems w))
      (run : (runItems >>= fun reports => pure (.ofItems reports) : Run σ Report) w = (res, w'))
      (journal : w'.journal = w.journal ++ events) : Shown r 0 s.items events := by
    obtain ⟨own, hJournal, hShown⟩ := hItems
    rcases hRan : runItems w with ⟨e | reports, w₁⟩
    all_goals
      rw [hRan] at hJournal
    · rw [run_bind_of_error hRan] at run
      cases run
      cases List.append_cancel_left (journal.symm.trans hJournal)
      exact hShown
    · rw [run_bind_of_ok hRan] at run
      cases run
      cases List.append_cancel_left (journal.symm.trans hJournal)
      exact hShown
  cases h with
  | @direct σ d stopOnError w w' _ _ resolver run journal =>
    subst resolver
    refine hScript ?_ run journal
    rw [Direct.runItems_eq_inOrder]
    exact inOrder_faithful d.runItem_faithful stopOnError 0 s.items w
  | @rounds σ c w w' _ _ resolver run journal =>
    subst resolver
    rw [Rounds.runScript] at run
    split at run
    · exact hScript (c.runTogether_faithful s.items w) run journal
    · refine hScript ?_ run journal
      rw [Rounds.runItems_eq_inOrder]
      exact inOrder_faithful c.runItem_faithful c.stopOnError 0 s.items w

/-- Each call of an item stands on a way of its program. -/
theorem made (h : s.Runs r res events) {k : Nat} {n : Node} (hNode : s.items[k]? = some n) :
    (ofItem r k n).Made k events := by
  have hMade := h.shown.made k n hNode
  rwa [Nat.zero_add] at hMade

end Script.Runs

end Directive
