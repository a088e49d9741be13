import Directive.Proofs.Chain.Reference
import Directive.Proofs.Text.Words

/-!
# Phrases that name a slot

A step can be referred to by its label or by its command, with any filler words around it.

* `Resolver.Names`: a phrase that does so;
* `Resolver.Names.means`: it may mean the slot, whatever words the label or the command is made of;
* `Resolver.exists_isLast`: a slot that may be meant is passed over for a later one only;
* `Resolver.resolve_of_names`: so the phrase is bound to the slot or to one that was stored behind it.
-/

namespace Directive.Resolver

variable {r : Resolver} {phrase : String} {slot : Slot} {k : Int}

/-- A phrase that is the label of a slot, or the name of its command as one word, with filler words
around it. -/
inductive Names (r : Resolver) (phrase : String) (slot : Slot) : Prop
  | label {before after : List String} (spoken : Text.isBlankText slot.label = false)
      (fillers : ∀ w ∈ before ++ after, w ∈ r.fillers)
      (words : wordsOf phrase = before ++ wordsOf slot.label ++ after) : Names r phrase slot
  | command {before after : List String} (fillers : ∀ w ∈ before ++ after, w ∈ r.fillers)
      (words : wordsOf phrase = before ++ [Text.lower slot.command] ++ after) : Names r phrase slot

/-- Filler words around others say nothing. -/
theorem core_between {before words after : List String}
    (fillers : ∀ w ∈ before ++ after, w ∈ r.fillers) :
    r.core (before ++ words ++ after) = r.core words := by
  obtain ⟨hBefore, hAfter⟩ := List.forall_mem_append.mp fillers
  have hFront : r.core before = [] := core_eq_nil_iff.mpr hBefore
  have hBack : r.core after = [] := core_eq_nil_iff.mpr hAfter
  unfold core at hFront hBack ⊢
  rw [List.filter_append, List.filter_append, hFront, hBack, List.nil_append, List.append_nil]

theorem core_singleton {word : String} (spoken : word ∉ r.fillers) : r.core [word] = [word] := by
  simp [core, spoken]

/-- A phrase may mean each slot that it names. -/
theorem Names.means (h : r.Names phrase slot) : r.Means phrase slot := by
  cases h with
  | @label before after spoken fillers words =>
    apply Means.label (wordsOf_ne_nil spoken)
    exact ⟨before, after, words.symm⟩
  | @command before after fillers words =>
    have hCore : r.core (wordsOf phrase) = r.core [Text.lower slot.command] := by
      rw [words]
      exact core_between fillers
    by_cases filler : Text.lower slot.command ∈ r.fillers
    · -- The command is a filler word itself, so the phrase says nothing at all.
      have hSilent : r.core [Text.lower slot.command] = [] := by
        apply core_eq_nil_iff.mpr
        intro w hw
        rwa [List.mem_singleton.mp hw]
      apply Means.nothing
      · simp [words]
      · exact core_eq_nil_iff.mp (hCore.trans hSilent)
    · rw [core_singleton filler] at hCore
      apply Means.command
      · simp [hCore]
      · exact hCore

/-- Among slots of which one may be meant there is a last one. -/
theorem exists_isLast {slots : List Slot} (mem : slot ∈ slots) (past : slot.step < k)
    (means : r.Means phrase slot) : ∃ found, r.IsLast phrase k slots found := by
  rcases hResolved : r.resolve phrase ⟨slots⟩ k .unknown with f | found
  · obtain ⟨hNone, -⟩ := resolve_eq_error_iff.mp hResolved
    exact absurd means (hNone slot mem past)
  · exact ⟨found, resolve_eq_ok_iff.mp hResolved⟩

theorem IsLast.mem {slots : List Slot} (h : r.IsLast phrase k slots slot) : slot ∈ slots := by
  obtain ⟨earlier, later, rfl, -, -⟩ := h
  exact List.mem_append_right _ List.mem_cons_self

theorem IsLast.past {slots : List Slot} (h : r.IsLast phrase k slots slot) : slot.step < k := by
  obtain ⟨_, _, -, ⟨-, past⟩, -⟩ := h
  exact past

/-- What is in front of some slots makes no difference to the last one that may be meant. -/
theorem IsLast.prepend {slots : List Slot} (h : r.IsLast phrase k slots slot)
    (front : List Slot) : r.IsLast phrase k (front ++ slots) slot := by
  obtain ⟨earlier, later, rfl, here, rest⟩ := h
  exact ⟨front ++ earlier, later, (List.append_assoc _ _ _).symm, here, rest⟩

/-- **A step can always be referred to by its label or its command.** Whatever the filler words are,
and whatever else is in the table: a phrase that names a slot of an earlier step is bound to that slot,
or to another one of an earlier step that was stored behind it. -/
theorem resolve_of_names {table : SlotTable} {earlier later : List Slot}
    (slots : table.slots = earlier ++ slot :: later) (past : slot.step < k)
    (names : r.Names phrase slot) (place : Place) :
    ∃ found ∈ slot :: later, found.step < k ∧ r.resolve phrase table k place = .ok found := by
  obtain ⟨found, hLast⟩ := exists_isLast List.mem_cons_self past names.means
  refine ⟨found, hLast.mem, hLast.past, ?_⟩
  rw [resolve_eq_ok_iff, slots]
  exact hLast.prepend earlier

def marketSearch : Slot := ⟨0, "market report", "SEARCH", .null⟩

/-- Its label has the name of another command in it, and its command is a filler word. -/
def searchResult : Slot := ⟨1, "Results of the search", "RESULT", .null⟩

theorem resolve_of_names_of_crossed :
    (∃ found ∈ [marketSearch, searchResult], found.step < 2 ∧
      standard.resolve "from the previous SEARCH" ⟨[marketSearch, searchResult]⟩ 2 .unknown =
        .ok found ∧ found.label = "Results of the search") ∧
    ∃ found ∈ [searchResult], found.step < 2 ∧
      standard.resolve "The Result" ⟨[marketSearch, searchResult]⟩ 2 .unknown = .ok found := by
  have hSearch : standard.Names "from the previous SEARCH" marketSearch :=
    @Names.command _ _ _ ["from", "the", "previous"] [] (by decide +kernel) (by decide +kernel)
  have hResult : standard.Names "The Result" searchResult :=
    @Names.command _ _ _ ["the"] [] (by decide +kernel) (by decide +kernel)
  have hLabel : (standard.resolve "from the previous SEARCH" ⟨[marketSearch, searchResult]⟩ 2
      .unknown).toOption.map Slot.label = some "Results of the search" := by
    decide +kernel
  have hSplit : (⟨[marketSearch, searchResult]⟩ : SlotTable).slots =
      [marketSearch] ++ searchResult :: [] := rfl
  constructor
  · obtain ⟨found, hFound, hPast, hResolved⟩ := resolve_of_names
      (List.nil_append [marketSearch, searchResult]).symm (by decide : (0 : Int) < 2) hSearch .unknown
    rw [hResolved] at hLabel
    exact ⟨found, hFound, hPast, hResolved, Option.some.inj hLabel⟩
  · exact resolve_of_names hSplit (by decide : (1 : Int) < 2) hResult .unknown

end Directive.Resolver
