import Mathlib.Data.String.Basic
import Directive.Grammar.Builtin
import Directive.Proofs.Modifier.Key
import Directive.Proofs.Table
import Directive.Proofs.Text.Words

/-!
# Canonical grammars

* `sortedSet_sortedSet`: names that are sorted, each once, stay as they are;
* `isCanonicalKey_canonicalKey`: a key that a grammar may declare is canonical once it is made so;
* `Domain.Canonical`, `Schema.Canonical`, `Grammar.Canonical`: what can be written down as data and
  read back as it is;
* `Grammar.canonical_ofSchemas`, `Grammar.canonical_merge`, `Grammar.canonical_builtin`: ways to get
  such a grammar.
-/

namespace Directive

/-! ### Sorted names -/

theorem pairwise_sortedSet (names : List String) :
    (sortedSet names).Pairwise fun a b => decide (a ≤ b) = true := by
  have hTrans (a b c : String) (hab : decide (a ≤ b) = true) (hbc : decide (b ≤ c) = true) :
      decide (a ≤ c) = true :=
    decide_eq_true ((of_decide_eq_true hab).trans (of_decide_eq_true hbc))
  have hTotal (a b : String) : (decide (a ≤ b) || decide (b ≤ a)) = true := by
    simpa using le_total a b
  exact (List.pairwise_mergeSort hTrans hTotal names).sublist (eraseDups_sublist _)

theorem sortedSet_sortedSet (names : List String) : sortedSet (sortedSet names) = sortedSet names := by
  conv => lhs; rw [sortedSet]
  rw [List.mergeSort_of_pairwise (pairwise_sortedSet names)]
  exact eraseDups_eq_self (nodup_eraseDups _)

theorem sortedSet_ne_nil {names : List String} (h : names ≠ []) : sortedSet names ≠ [] := by
  obtain ⟨name, hName⟩ := List.exists_mem_of_ne_nil names h
  refine List.ne_nil_of_mem (a := name) ?_
  rw [sortedSet, List.mem_eraseDups, List.mem_mergeSort]
  exact hName

/-! ### Keys -/

theorem notBlank_lowerChar {c : Char} (h : Text.isBlank c = false) :
    ∀ d ∈ Text.lowerChar c, Text.isBlank d = false := by
  unfold Text.lowerChar
  split
  · rename_i ascii
    exact List.forall_mem_singleton.mpr (Text.isBlank_toLower ascii h)
  · split
    · exact List.forall_mem_cons.mpr ⟨rfl, List.forall_mem_singleton.mpr rfl⟩
    · exact List.forall_mem_singleton.mpr (Text.isBlank_mapByRuns h)

/-- What stands for a character in small letters is as little blank as the character. -/
theorem notBlank_lowered {c : Char} (h : Text.isBlank c = false) (ends : Bool) :
    ∀ d ∈ (if c = 'Σ' then [if ends then 'ς' else 'σ'] else Text.lowerChar c),
      Text.isBlank d = false := by
  split
  · intro d hd
    rw [List.mem_singleton.mp hd]
    split <;> decide
  · exact notBlank_lowerChar h

theorem lowered_ne_nil (c : Char) (ends : Bool) :
    (if c = 'Σ' then [if ends then 'ς' else 'σ'] else Text.lowerChar c) ≠ [] := by
  unfold Text.lowerChar
  grind

theorem lowerFrom_eq_nil_iff {before cs : List Char} : Text.lowerFrom before cs = [] ↔ cs = [] := by
  cases cs with
  | nil => simp [Text.lowerFrom]
  | cons c cs => simp [Text.lowerFrom, lowered_ne_nil]

/-- A text that does not end with a blank does not end with one in small letters. -/
theorem notBlank_getLast?_lowerFrom {cs : List Char}
    (h : ∀ c ∈ cs.getLast?, Text.isBlank c = false) (before : List Char) :
    ∀ d ∈ (Text.lowerFrom before cs).getLast?, Text.isBlank d = false := by
  induction cs generalizing before with
  | nil => simp [Text.lowerFrom]
  | cons c cs ih =>
    rw [Text.lowerFrom, List.getLast?_append]
    cases cs with
    | nil =>
      have hLast : Text.isBlank c = false := h c rfl
      intro d hd
      rw [Text.lowerFrom, List.getLast?_nil, Option.none_or] at hd
      exact notBlank_lowered hLast _ d (List.mem_of_getLast? hd)
    | cons c' cs =>
      intro d hd
      have hRest := ih (fun c hc => h c (by rwa [List.getLast?_cons_cons])) (c :: before)
      cases hMore : (Text.lowerFrom (c :: before) (c' :: cs)).getLast? with
      | none =>
        rw [List.getLast?_eq_none_iff, lowerFrom_eq_nil_iff] at hMore
        cases hMore
      | some e =>
        rw [hMore, Option.some_or, Option.mem_some_iff] at hd
        exact hd ▸ hRest e hMore

theorem notBlank_getLast?_canonicalKeyChars (cs : List Char) :
    ∀ c ∈ (canonicalKeyChars cs).getLast?, Text.isBlank c = false := by
  refine notBlank_getLast?_lowerFrom (fun c hc => ?_) []
  rw [hyphensToUnderscores, List.getLast?_map] at hc
  obtain ⟨d, hd, rfl⟩ := Option.map_eq_some_iff.mp hc
  split
  · decide
  · exact notBlank_getLast?_lowerFrom (Text.notBlank_getLast?_trimChars cs) [] d hd

/-- A key that a grammar may declare is canonical once it is made so. -/
theorem isCanonicalKey_canonicalKey {key : String} (h : isKeyName (canonicalKey key) = true) :
    IsCanonicalKey (canonicalKey key) := by
  have hKept : dropFinalBreak (canonicalKey key).toList = (canonicalKey key).toList := by
    refine if_neg fun hBreak => ?_
    rw [canonicalKey, String.toList_ofList] at hBreak
    have hBlank := notBlank_getLast?_canonicalKeyChars key.toList _ hBreak
    revert hBlank
    decide
  rw [isKeyName, hKept] at h
  exact h

theorem IsCanonicalKey.isKeyName {key : String} (h : IsCanonicalKey key) :
    Directive.isKeyName key = true := by
  have hKept : dropFinalBreak key.toList = key.toList := by
    refine if_neg fun hBreak => ?_
    have hBlank := (h.keyChars '\n' (List.mem_of_getLast? hBreak)).notBlank
    revert hBlank
    decide
  rw [Directive.isKeyName, hKept]
  exact h

/-! ### Grammars -/

/-- A domain that can be written down as data. Names are sorted, each once. -/
def Domain.Canonical : Domain → Prop
  | .freeText => True
  | .choice choices => choices ≠ [] ∧ sortedSet choices = choices
  | .range minimum maximum => maximum.lt minimum = false
  | .listOf item => item.Canonical
  | .weights keys => keys ≠ [] ∧ sortedSet keys = keys
  | .custom _ _ _ => False

def Domain.decidableCanonical : (d : Domain) → Decidable d.Canonical
  | .freeText => inferInstanceAs (Decidable True)
  | .choice _ => inferInstanceAs (Decidable (_ ∧ _))
  | .range _ _ => inferInstanceAs (Decidable (_ = _))
  | .listOf item => item.decidableCanonical
  | .weights _ => inferInstanceAs (Decidable (_ ∧ _))
  | .custom _ _ _ => inferInstanceAs (Decidable False)

instance (d : Domain) : Decidable d.Canonical := d.decidableCanonical

def Schema.Canonical (s : Schema) : Prop :=
  ∀ e ∈ s.modifiers.entries, IsCanonicalKey e.1 ∧ e.2.Canonical

/-- A grammar that can be written down as data: each command has its own name, which a grammar may
declare, and canonical modifiers. -/
def Grammar.Canonical (g : Grammar) : Prop :=
  ∀ e ∈ g.schemas.entries, isCommandName e.1 = true ∧ e.2.name = e.1 ∧ e.2.Canonical

instance (key : String) : Decidable (IsCanonicalKey key) := inferInstanceAs (Decidable (_ = _))

instance (s : Schema) : Decidable s.Canonical :=
  inferInstanceAs (Decidable (∀ e ∈ s.modifiers.entries, IsCanonicalKey e.1 ∧ e.2.Canonical))

instance (g : Grammar) : Decidable g.Canonical :=
  inferInstanceAs (Decidable (∀ e ∈ g.schemas.entries, isCommandName e.1 = true ∧ e.2.name = e.1 ∧
    e.2.Canonical))

namespace Grammar

theorem canonical_ofSchemas {schemas : List Schema}
    (h : ∀ s ∈ schemas, isCommandName s.name = true ∧ s.Canonical) :
    (Grammar.ofSchemas schemas).Canonical := by
  intro e he
  obtain ⟨s, hs, rfl⟩ := List.mem_map.mp (Table.mem_of_mem_ofList he)
  obtain ⟨hName, hCanonical⟩ := h s hs
  exact ⟨hName, rfl, hCanonical⟩

theorem canonical_merge {g h : Grammar} (hg : g.Canonical) (hh : h.Canonical) :
    (g.merge h).Canonical := by
  intro e he
  obtain he | he := Table.mem_of_mem_merge he
  · exact hg e he
  · exact hh e he

/-! ### The built-in commands -/

@[simp]
theorem canonical_freeText : Domain.freeText.Canonical := trivial

@[simp]
theorem canonical_listOf {item : Domain} : (Domain.listOf item).Canonical ↔ item.Canonical := .rfl

@[simp]
theorem canonical_oneOf {choices : List String} : (oneOf choices).Canonical ↔ choices ≠ [] := by
  refine ⟨?_, fun h => ⟨sortedSet_ne_nil h, sortedSet_sortedSet choices⟩⟩
  rintro ⟨hSome, -⟩ rfl
  exact hSome (by simp [sortedSet])

@[simp]
theorem canonical_weightsOf {keys : List String} : (weightsOf keys).Canonical ↔ keys ≠ [] :=
  canonical_oneOf

theorem canonical_of_modifiers {s : Schema} {modifiers : List (String × Domain)}
    (declared : s.modifiers = Table.ofList modifiers)
    (h : ∀ m ∈ modifiers, IsCanonicalKey m.1 ∧ m.2.Canonical) : s.Canonical := by
  intro e he
  rw [declared] at he
  exact h e (Table.mem_of_mem_ofList he)

theorem canonical_builtinSchemas : ∀ s ∈ builtinSchemas, s.Canonical := by
  simp only [builtinSchemas, List.forall_mem_cons, List.not_mem_nil, false_implies, implies_true,
    and_true]
  constructorm* _ ∧ _
  all_goals
    refine canonical_of_modifiers rfl ?_
    simp only [List.forall_mem_cons, List.not_mem_nil, false_implies, implies_true, and_true,
      canonical_freeText, canonical_listOf, canonical_oneOf, canonical_weightsOf]
  all_goals decide +kernel

theorem canonical_builtin : Grammar.builtin.Canonical := by
  refine canonical_ofSchemas fun s hs => ⟨?_, canonical_builtinSchemas s hs⟩
  have hNames : ∀ s ∈ builtinSchemas, isCommandName s.name = true := by
    decide +kernel
  exact hNames s hs

end Grammar

end Directive
