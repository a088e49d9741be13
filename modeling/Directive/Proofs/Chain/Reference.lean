import Mathlib.Data.List.Infix
import Directive.Chain.Reference

/-!
# What a phrase is bound to

* `Resolver.Means`: the ways in which a phrase may mean a slot;
* `Resolver.matchesSlot_iff`: a phrase matches just the slots that it may mean;
* `stored`: what was stored since a table was last cleared, whatever happened before;
* `Resolver.resolve_after`: a phrase is bound to the last of these, among those of earlier steps, that
  it may mean.
-/

namespace Directive

/-- The last of some items with a property. -/
theorem getLast?_filter_eq_some_iff {α : Type} {p : α → Bool} {items : List α} {a : α} :
    (items.filter p).getLast? = some a ↔
      ∃ earlier later, items = earlier ++ a :: later ∧ p a = true ∧ ∀ b ∈ later, ¬ p b = true := by
  constructor
  · intro h
    obtain ⟨others, hFilter⟩ := List.getLast?_eq_some_iff.mp h
    obtain ⟨front, back, rfl, -, hBack⟩ := List.filter_eq_append_iff.mp hFilter
    obtain ⟨middle, later, rfl, -, hHere, hRest⟩ := List.filter_eq_cons_iff.mp hBack
    exact ⟨front ++ middle, later, (List.append_assoc _ _ _).symm, hHere,
      List.filter_eq_nil_iff.mp hRest⟩
  · rintro ⟨earlier, later, rfl, here, rest⟩
    rw [List.filter_append, List.filter_cons_of_pos here, List.filter_eq_nil_iff.mpr rest,
      List.getLast?_concat]

namespace Resolver

theorem isRunOf_iff {run ws : List String} : isRunOf run ws = true ↔ run <:+: ws := by
  induction ws with
  | nil => rw [isRunOf, List.isEmpty_iff, List.infix_nil]
  | cons w ws ih =>
    rw [isRunOf, Bool.or_eq_true, List.isPrefixOf_iff_prefix, ih, List.infix_cons_iff]

variable {r : Resolver} {phrase : String} {slot : Slot}

/-- The ways in which a phrase may mean a slot: it has the label in it, or is a part of the label; it
says nothing; or what it says is what the label says, or the name of the command. -/
inductive Means (r : Resolver) (phrase : String) (slot : Slot) : Prop
  | label (spoken : wordsOf slot.label ≠ []) (within : wordsOf slot.label <:+: wordsOf phrase)
  | part (spoken : wordsOf phrase ≠ []) (within : wordsOf phrase <:+: wordsOf slot.label)
  | nothing (spoken : wordsOf phrase ≠ []) (fillers : ∀ w ∈ wordsOf phrase, w ∈ r.fillers)
  | core (spoken : r.core (wordsOf phrase) ≠ [])
      (same : r.core (wordsOf phrase) = r.core (wordsOf slot.label))
  | command (spoken : r.core (wordsOf phrase) ≠ [])
      (same : r.core (wordsOf phrase) = [Text.lower slot.command])

theorem core_eq_nil_iff {words : List String} : r.core words = [] ↔ ∀ w ∈ words, w ∈ r.fillers := by
  rw [Resolver.core, List.filter_eq_nil_iff]
  simp

theorem runs_iff {run words : List String} :
    (!run.isEmpty && isRunOf run words) = true ↔ run ≠ [] ∧ run <:+: words := by
  rw [Bool.and_eq_true, isRunOf_iff]
  simp

/-- A phrase matches a slot if it may mean the slot. -/
theorem matchesSlot_iff : r.matchesSlot phrase slot = true ↔ r.Means phrase slot := by
  rw [matchesSlot, means, Bool.or_eq_true, Bool.or_eq_true, runs_iff, runs_iff]
  constructor
  · rintro ((⟨spoken, within⟩ | ⟨spoken, within⟩) | otherwise)
    · exact .label spoken within
    · exact .part spoken within
    split at otherwise
    · rename_i silent
      exact .nothing (by simpa using otherwise) (core_eq_nil_iff.mp (List.isEmpty_iff.mp silent))
    · rename_i spoken
      have hSpoken : r.core (wordsOf phrase) ≠ [] := by simpa using spoken
      rw [Bool.or_eq_true] at otherwise
      rcases otherwise with same | same
      · exact .core hSpoken (eq_of_beq same)
      · exact .command hSpoken (eq_of_beq same)
  · intro h
    cases h with
    | label spoken within => exact .inl (.inl ⟨spoken, within⟩)
    | part spoken within => exact .inl (.inr ⟨spoken, within⟩)
    | nothing spoken fillers =>
      right
      rw [core_eq_nil_iff.mpr fillers]
      simpa using spoken
    | core spoken same =>
      right
      rw [if_neg (by simpa using spoken), same, beq_self_eq_true, Bool.true_or]
    | command spoken same =>
      right
      rw [if_neg (by simpa using spoken), same, beq_self_eq_true, Bool.or_true]

end Resolver

inductive SlotChange
  | store (slot : Slot)
  | clear

def SlotChange.clears : SlotChange → Bool
  | .store _ => false
  | .clear => true

namespace SlotTable

def change (t : SlotTable) : SlotChange → SlotTable
  | .store slot => t.store slot
  | .clear => .empty

def after (history : List SlotChange) : SlotTable := history.foldl change .empty

end SlotTable

/-- The slots that were stored and never cleared since. -/
def stored : List SlotChange → List Slot
  | [] => []
  | .clear :: later => stored later
  | .store slot :: later =>
    if later.any (·.clears) then stored later else slot :: stored later

theorem stored_concat_store (history : List SlotChange) (slot : Slot) :
    stored (history ++ [.store slot]) = stored history ++ [slot] := by
  induction history with
  | nil => rfl
  | cons change history ih =>
    cases change with
    | clear => exact ih
    | store first =>
      have hAny : (history ++ [SlotChange.store slot]).any (·.clears) = history.any (·.clears) := by
        rw [List.any_append]
        exact Bool.or_false _
      rw [List.cons_append, stored, stored, hAny, ih]
      split
      · rfl
      · exact (List.cons_append).symm

theorem stored_concat_clear (history : List SlotChange) : stored (history ++ [.clear]) = [] := by
  induction history with
  | nil => rfl
  | cons change history ih =>
    cases change with
    | clear => exact ih
    | store first =>
      have hAny : (history ++ [SlotChange.clear]).any (·.clears) = true := by
        rw [List.any_append]
        exact Bool.or_true _
      rw [List.cons_append, stored, if_pos hAny, ih]

/-- A table holds what was stored and never cleared since, in that order. -/
theorem slots_after (history : List SlotChange) : (SlotTable.after history).slots = stored history := by
  induction history using List.reverseRecOn with
  | nil => rfl
  | append_singleton history last ih =>
    rw [SlotTable.after, List.foldl_concat]
    cases last with
    | store slot =>
      rw [stored_concat_store, ← ih]
      rfl
    | clear =>
      rw [stored_concat_clear]
      rfl

namespace Resolver

variable {r : Resolver} {phrase : String} {slot : Slot} {table : SlotTable} {k : Int} {place : Place}

/-- The last of some slots, among those of earlier steps, that a phrase may mean. -/
def IsLast (r : Resolver) (phrase : String) (k : Int) (slots : List Slot) (slot : Slot) : Prop :=
  ∃ earlier later, slots = earlier ++ slot :: later ∧ (r.Means phrase slot ∧ slot.step < k) ∧
    ∀ other ∈ later, other.step < k → ¬ r.Means phrase other

theorem candidates_eq (r : Resolver) (phrase : String) (table : SlotTable) (k : Int) :
    r.candidates phrase table k =
      table.slots.filter fun slot => r.matchesSlot phrase slot && decide (slot.step < k) := by
  rw [candidates, SlotTable.before, List.filter_filter]

theorem resolve_eq_ok_iff :
    r.resolve phrase table k place = .ok slot ↔ r.IsLast phrase k table.slots slot := by
  have hLast : r.resolve phrase table k place = .ok slot ↔
      (r.candidates phrase table k).getLast? = some slot := by
    rw [resolve]
    cases (r.candidates phrase table k).getLast? <;> simp
  rw [hLast, candidates_eq, getLast?_filter_eq_some_iff, IsLast]
  simp only [Bool.and_eq_true, matchesSlot_iff, decide_eq_true_eq, not_and']

theorem resolve_eq_error_iff {f : Fault} :
    r.resolve phrase table k place = .error f ↔
      (∀ slot ∈ table.slots, slot.step < k → ¬ r.Means phrase slot) ∧
        f = ⟨.unresolved phrase ((table.before k).map Slot.label), place⟩ := by
  have hNone : r.resolve phrase table k place = .error f ↔ r.candidates phrase table k = [] ∧
      f = ⟨.unresolved phrase ((table.before k).map Slot.label), place⟩ := by
    rw [resolve, ← List.getLast?_eq_none_iff]
    cases (r.candidates phrase table k).getLast? <;> simp [eq_comm]
  rw [hNone, candidates_eq, List.filter_eq_nil_iff]
  simp only [Bool.and_eq_true, matchesSlot_iff, decide_eq_true_eq, not_and']

/-- **A phrase is bound to the last slot that it may mean.** It is the last of those that were stored
for earlier steps and never cleared since. If there is none, the labels of all these are told. Slots
of other steps make no difference. -/
theorem resolve_after (r : Resolver) (phrase : String) :
    (∀ slot, r.matchesSlot phrase slot = true ↔ r.Means phrase slot) ∧
    ∀ (history : List SlotChange) (k : Int) (place : Place),
      (∀ slot, r.resolve phrase (.after history) k place = .ok slot ↔
        r.IsLast phrase k (stored history) slot) ∧
      (∀ f, r.resolve phrase (.after history) k place = .error f ↔
        (∀ slot ∈ stored history, slot.step < k → ¬ r.Means phrase slot) ∧
          f = ⟨.unresolved phrase (((stored history).filter (·.step < k)).map Slot.label), place⟩) ∧
      ∀ others : List SlotChange,
        (stored others).filter (·.step < k) = (stored history).filter (·.step < k) →
          r.resolve phrase (.after others) k place = r.resolve phrase (.after history) k place := by
  constructor
  · intro slot
    exact matchesSlot_iff
  intro history k place
  rw [← slots_after]
  refine ⟨?_, ?_, ?_⟩
  · intro slot
    exact resolve_eq_ok_iff
  · intro f
    exact resolve_eq_error_iff
  · intro others same
    have hBefore : (SlotTable.after others).before k = (SlotTable.after history).before k := by
      rw [SlotTable.before, slots_after]
      exact same
    rw [resolve, resolve, candidates, candidates, hBefore]

def searchSlot (step : Int) (label : String) : Slot := ⟨step, label, "SEARCH", .null⟩

/-- The result of an earlier step is stored behind that of a later one. -/
def outOfOrder : List SlotChange :=
  [.store (searchSlot 2 "market report"), .store (searchSlot 0 "market brief")]

/-- The same in a table that was cleared before, and then has a result of a much later step. -/
def refilled : List SlotChange :=
  [.store (searchSlot 1 "old market report"), .clear] ++ outOfOrder ++
    [.store (searchSlot 5 "late market brief")]

theorem resolve_after_of_refilled :
    (stored outOfOrder).filter (·.step < 3) = (stored refilled).filter (·.step < 3) ∧
      standard.resolve "Market" (.after refilled) 3 .unknown = .ok (searchSlot 0 "market brief") ∧
      standard.resolve "Market" (.after outOfOrder) 3 .unknown =
        .ok (searchSlot 0 "market brief") := by
  obtain ⟨hMatches, hResolves⟩ := resolve_after standard "Market"
  obtain ⟨hFound, -, hOthers⟩ := hResolves refilled 3 .unknown
  have hSame : (stored outOfOrder).filter (·.step < 3) = (stored refilled).filter (·.step < 3) := rfl
  have hMeans := (hMatches (searchSlot 0 "market brief")).mp (by decide +kernel)
  have hLast : standard.IsLast "Market" 3 (stored refilled) (searchSlot 0 "market brief") := by
    refine ⟨[searchSlot 2 "market report"], [searchSlot 5 "late market brief"], rfl,
      ⟨hMeans, by decide⟩, ?_⟩
    intro other hOther earlier
    rw [List.mem_singleton.mp hOther] at earlier
    exact absurd earlier (by decide)
  have hBrief := (hFound _).mpr hLast
  exact ⟨hSame, hBrief, (hOthers _ hSame).trans hBrief⟩

end Resolver

end Directive
