import Directive.Proofs.Modifier.Setting
import Directive.Proofs.Script.Revalidation

/-!
# Settings with something in them

A value that is blank is refused before it is classified. What is classified may still have nothing
in it, since items that are empty are left out.

* `Setting.IsFilled`: a setting with something in it;
* `Setting.isFilled_ofText_iff`: that is what texts are classified as, gaps apart;
* `Domain.TakesEmpty`: the domains that take a list without items;
* `GivenBy`: the modifier that a setting of a parsed command comes from;
* `filled_of_ofText`: so a setting has something in it unless its value is a gap.
-/

namespace Directive

open ParseContext

/-! ### Texts with an item -/

theorem notBlank_of_notBlank_head {text : List Char} (nonempty : text ≠ [])
    (front : ∀ c ∈ text.head?, Text.isBlank c = false) : text.all Text.isBlank = false := by
  cases text with
  | nil => exact absurd rfl nonempty
  | cons c text => simp [front c rfl]

theorem notBlank_trimChars {text : List Char} (nonempty : Text.trimChars text ≠ []) :
    (Text.trimChars text).all Text.isBlank = false :=
  notBlank_of_notBlank_head nonempty (Text.notBlank_head?_trimChars text)

theorem IsItem.notBlank {item : List Char} (h : IsItem item) :
    item.all Text.isBlank = false := by
  have hTrimmed := notBlank_trimChars (h.trimmed.symm ▸ h.nonempty)
  rwa [h.trimmed] at hTrimmed

theorem IsItem.not_isGap {item : List Char} (h : IsItem item) : ¬ IsGap item := by
  intro gap
  obtain ⟨c, hc, hBlank⟩ := List.all_eq_false.mp h.notBlank
  rcases gap c hc with blank | rfl
  · exact hBlank blank
  · exact h.noComma hc

theorem IsGap.subset {gap part : List Char} (h : IsGap gap) (within : part ⊆ gap) : IsGap part := by
  intro c hc
  exact h c (within hc)

/-- A text has no items if it is a gap, and only then. -/
theorem Items.eq_nil_iff {text : List Char} {items : List (List Char)} (h : Items text items) :
    items = [] ↔ IsGap text := by
  cases h with
  | none blank => exact iff_of_true rfl blank
  | last gapped first blank =>
    refine iff_of_false (List.cons_ne_nil _ _) fun gap => first.not_isGap ?_
    exact gap.subset (by simp)
  | item gapped first blank rest =>
    refine iff_of_false (List.cons_ne_nil _ _) fun gap => first.not_isGap ?_
    exact gap.subset (by simp)

theorem Setting.itemsOf_eq_nil_iff {raw : List Char} : itemsOf raw = [] ↔ IsGap raw :=
  (items_of_itemsOf raw).eq_nil_iff

/-! ### What texts are classified as -/

namespace Setting

/-- A setting with something in it: a single value that is not blank, or at least one item or pair,
none of which is blank. -/
def IsFilled : Setting → Prop
  | .single t => Text.isBlankText t = false
  | .list items => items ≠ [] ∧ ∀ item ∈ items, Text.isBlankText item = false
  | .weighted pairs => pairs ≠ [] ∧ ∀ p ∈ pairs, Text.isBlankText p.1 = false

instance (s : Setting) : Decidable s.IsFilled :=
  match s with
  | .single _ => inferInstanceAs (Decidable (_ = _))
  | .list _ => inferInstanceAs (Decidable (_ ∧ _))
  | .weighted _ => inferInstanceAs (Decidable (_ ∧ _))

variable {raw : List Char}

/-- The key of a pair is not blank. -/
theorem notBlank_of_pair? {item : List Char} {p : String × Binary64} (h : pair? item = some p) :
    Text.isBlankText p.1 = false := by
  unfold pair? at h
  split at h
  · cases h
  · dsimp only at h
    split at h
    · cases h
    · rename_i key weight hCut hKey
      split at h
      · split at h
        · cases h
          rw [Text.isBlankText, String.toList_ofList]
          apply notBlank_trimChars
          simpa using hKey
        · cases h
      · cases h

theorem filled_of_mapM {items : List (List Char)} {pairs : List (String × Binary64)}
    (h : items.mapM pair? = some pairs) :
    pairs.length = items.length ∧ ∀ p ∈ pairs, Text.isBlankText p.1 = false := by
  induction items generalizing pairs with
  | nil =>
    cases h
    exact ⟨rfl, List.forall_mem_nil _⟩
  | cons item items ih =>
    rw [List.mapM_cons, Option.bind_eq_bind, Option.bind_eq_some_iff] at h
    obtain ⟨p, hPair, h⟩ := h
    rw [Option.bind_eq_bind, Option.bind_eq_some_iff] at h
    obtain ⟨rest, hRest, h⟩ := h
    cases h
    obtain ⟨hLength, hKeys⟩ := ih hRest
    constructor
    · rw [List.length_cons, List.length_cons, hLength]
    · exact List.forall_mem_cons.mpr ⟨notBlank_of_pair? hPair, hKeys⟩

theorem filled_of_pairs? {items : List (List Char)} {pairs : List (String × Binary64)}
    (h : pairs? items = some pairs) : items ≠ [] ∧ (weighted pairs).IsFilled := by
  unfold pairs? at h
  split at h
  · cases h
  · rename_i hSome
    have hItems : items ≠ [] := by
      simpa using hSome
    obtain ⟨hLength, hKeys⟩ := filled_of_mapM h
    refine ⟨hItems, ?_, hKeys⟩
    rintro rfl
    exact hItems (List.length_eq_zero_iff.mp hLength.symm)

/-- A text is classified as something that is filled, unless there is nothing in it but blanks and
commas. -/
theorem isFilled_ofChars_iff : (ofChars raw).IsFilled ↔ ¬ IsGap raw := by
  rw [← itemsOf_eq_nil_iff]
  rcases hSetting : ofChars raw with t | items | pairs
  · obtain ⟨-, noComma, rfl⟩ := ofChars_eq_single_iff.mp hSetting
    rw [itemsOf_of_noComma noComma, IsFilled, Text.isBlankText, String.toList_ofList]
    by_cases empty : Text.trimChars raw = []
    · simp [empty]
    · simp [empty, notBlank_trimChars empty]
  · obtain ⟨-, -, rfl⟩ := ofChars_eq_list_iff.mp hSetting
    have hItems : ∀ item ∈ (itemsOf raw).map String.ofList, Text.isBlankText item = false := by
      intro item hItem
      obtain ⟨cs, hcs, rfl⟩ := List.mem_map.mp hItem
      rw [Text.isBlankText, String.toList_ofList]
      exact ((items_of_itemsOf raw).isItem cs hcs).notBlank
    rw [IsFilled, and_iff_left hItems, ne_eq, List.map_eq_nil_iff]
  · unfold ofChars at hSetting
    dsimp only at hSetting
    split at hSetting
    · rename_i hPairs
      cases hSetting
      obtain ⟨hItems, hFilled⟩ := filled_of_pairs? hPairs
      exact iff_of_true hFilled hItems
    · split at hSetting <;> cases hSetting

/-- A gap that is not blank has a comma, and is classified as a list without items. -/
theorem ofChars_of_gap (gap : IsGap raw) (notBlank : raw.all Text.isBlank = false) :
    ofChars raw = .list [] := by
  have hItems : itemsOf raw = [] := itemsOf_eq_nil_iff.mpr gap
  rw [ofChars_eq_list_iff, hItems]
  refine ⟨rfl, ?_, rfl⟩
  obtain ⟨c, hc, hBlank⟩ := List.all_eq_false.mp notBlank
  rcases gap c hc with blank | rfl
  · exact absurd blank hBlank
  · exact hc

end Setting

/-! ### What domains make of a list without items -/

namespace Domain

/-- The domains that take a list without items: free text, lists of whatever domain, which look at one
item after another, and those from outside whose own check has nothing against it. -/
def TakesEmpty : Domain → Prop
  | .freeText | .listOf _ => True
  | .custom _ check _ => check (.list []) = none
  | .choice _ | .range _ _ | .weights _ => False

theorem refusal?_empty_iff {d : Domain} : d.refusal? (.list []) = none ↔ d.TakesEmpty := by
  cases d <;> simp [refusal?, rangeRefusal?, TakesEmpty]

end Domain

/-! ### The settings of scripts -/

/-- A modifier of a command comes from a key and a value among some tokens, and was accepted. -/
structure GivenBy (g : Grammar) (ts : List Token) (i : Invocation) (m : String × Setting)
    (w : WrittenModifier) : Prop where
  wellFormed : w.WellFormed
  within : w.tokens ⊆ ts
  same : m = (w.name, w.setting)
  accepted : ∃ schema, g.find? i.command = some schema ∧ schema.Accepts m.1 m.2

theorem CommandLine.givenBy {g : Grammar} {step : Option Nat} {line : List Token} {i : Invocation}
    (h : CommandLine g step line i) {m : String × Setting} (mem : m ∈ i.modifiers.entries) :
    ∃ w, GivenBy g line i m w := by
  cases h with
  | @line header colon schema inputTokens input written _ _ known _ _ _ wellFormed accepted =>
    obtain ⟨earlier, w, later, hWritten, same, -⟩ := exists_last_of_mem mem
    have hMem : w ∈ written := by
      rw [hWritten]
      exact List.mem_append_right earlier List.mem_cons_self
    refine ⟨w, wellFormed w hMem, ?_, same, schema, known, accepted m mem⟩
    intro t ht
    have hTokens : t ∈ written.flatMap (·.tokens) := List.mem_flatMap.mpr ⟨w, hMem, ht⟩
    simp [hTokens]

theorem givenBy_of_ofText {g : Grammar} {text : String} {s : Script}
    (parsed : Script.ofText g text = .ok s) :
    ∃ ts, Token.ofText text = .ok ts ∧
      ∀ i ∈ s.invocations, ∀ m ∈ i.modifiers.entries, ∃ w, GivenBy g ts i m w := by
  obtain ⟨ts, hTokens, hLines⟩ := line_of_ofText parsed
  refine ⟨ts, hTokens, ?_⟩
  intro i hi m hm
  obtain ⟨_, line, hLine, hWithin⟩ := hLines i hi
  obtain ⟨w, given⟩ := hLine.givenBy hm
  exact ⟨w, { given with within := List.Subset.trans given.within hWithin }⟩

namespace GivenBy

variable {g : Grammar} {ts : List Token} {i : Invocation} {m : String × Setting}
  {w : WrittenModifier}

theorem isFilled_iff (h : GivenBy g ts i m w) : m.2.IsFilled ↔ ¬ IsGap w.value.text.toList := by
  rw [h.same]
  exact Setting.isFilled_ofChars_iff

/-- The value of a modifier that is not filled is not blank, so it has a comma. -/
theorem empty_of_gap (h : GivenBy g ts i m w) (gap : IsGap w.value.text.toList) :
    m.2 = .list [] ∧ ∃ schema d, g.find? i.command = some schema ∧
      schema.modifiers.get? m.1 = some d ∧ d.TakesEmpty := by
  have hEmpty : m.2 = .list [] := by
    rw [h.same]
    exact Setting.ofChars_of_gap gap h.wellFormed.notBlank
  obtain ⟨schema, known, d, declared, accepts⟩ := h.accepted
  rw [hEmpty, Domain.refusal?_empty_iff] at accepts
  exact ⟨hEmpty, schema, d, known, declared, accepts⟩

end GivenBy

/-- **The settings of scripts have something in them, unless a value is a gap.** If no value in a text
consists of blanks and commas, then every setting in its script, at any depth, has something in it: a
single value is not blank, a list and a weighted list have items, and none of these is blank. Whatever
the values are, each setting comes from a value of the text that is not blank. It has something in it
exactly if that value is no gap; if it is one, the setting is the list without items, and the domain of
the key is one that takes this list. -/
theorem filled_of_ofText {g : Grammar} {text : String} {s : Script}
    (parsed : Script.ofText g text = .ok s) :
    ∃ ts, Token.ofText text = .ok ts ∧
      ((∀ t ∈ ts, t.kind = .modifierValue → ¬ IsGap t.text.toList) →
        ∀ i ∈ s.invocations, ∀ m ∈ i.modifiers.entries, m.2.IsFilled) ∧
      ∀ i ∈ s.invocations, ∀ m ∈ i.modifiers.entries, ∃ w, GivenBy g ts i m w ∧
        (m.2.IsFilled ↔ ¬ IsGap w.value.text.toList) ∧
        (IsGap w.value.text.toList → m.2 = .list [] ∧ ∃ schema d,
          g.find? i.command = some schema ∧ schema.modifiers.get? m.1 = some d ∧ d.TakesEmpty) := by
  obtain ⟨ts, hTokens, hGiven⟩ := givenBy_of_ofText parsed
  refine ⟨ts, hTokens, ?_, ?_⟩
  · intro noGap i hi m hm
    obtain ⟨w, given⟩ := hGiven i hi m hm
    rw [given.isFilled_iff]
    exact noGap w.value (given.within (by simp [WrittenModifier.tokens])) given.wellFormed.value
  · intro i hi m hm
    obtain ⟨w, given⟩ := hGiven i hi m hm
    exact ⟨w, given, given.isFilled_iff, given.empty_of_gap⟩

/-- A list of which an item is left out, in a step of a chain. -/
theorem filled_of_ofText_of_criteria :
    ∃ s, Script.ofText .builtin "CHAIN:\n  COMPARE: \"tea\" --criteria=\"cost, ,taste\"\n" = .ok s ∧
      ∀ i ∈ s.invocations, ∀ m ∈ i.modifiers.entries, m.2.IsFilled := by
  generalize hText : "CHAIN:\n  COMPARE: \"tea\" --criteria=\"cost, ,taste\"\n" = text
  have hParsed : (Script.ofText .builtin text).toOption.isSome = true := by
    subst hText
    decide +kernel
  have hValues : (Token.ofText text).toOption.map (fun ts =>
      (ts.filter (·.kind = .modifierValue)).map Token.text) = some ["cost, ,taste"] := by
    subst hText
    decide +kernel
  obtain ⟨s, hScript⟩ := Upshot.exists_of_isSome hParsed
  obtain ⟨ts, hTokens, hFilled, -⟩ := filled_of_ofText hScript
  rw [hTokens] at hValues
  have hOnly : (ts.filter (·.kind = .modifierValue)).map Token.text = ["cost, ,taste"] :=
    Option.some.inj hValues
  refine ⟨s, hScript, hFilled ?_⟩
  intro t ht kind gap
  have hMem : t.text ∈ (ts.filter (·.kind = .modifierValue)).map Token.text :=
    List.mem_map_of_mem (List.mem_filter.mpr ⟨ht, decide_eq_true kind⟩)
  rw [hOnly, List.mem_singleton] at hMem
  rw [hMem] at gap
  have hFirst := gap 'c' (by decide)
  revert hFirst
  decide

/-- A list of certain words is taken without any of them. -/
theorem not_filled_of_comma :
    ∃ s, Script.ofText .builtin "REFINE: \"tea\" --aspect=," = .ok s ∧
      ∃ i ∈ s.invocations, ∃ m ∈ i.modifiers.entries, m = ("aspect", .list []) ∧ ¬ m.2.IsFilled := by
  have hFound : (Script.ofText .builtin "REFINE: \"tea\" --aspect=,").toOption.map (fun s =>
      s.invocations.map fun i => i.modifiers.entries) = some [[("aspect", .list [])]] := by
    decide +kernel
  obtain ⟨s, hScript, hCommands⟩ := Upshot.exists_of_map hFound
  obtain ⟨i, hOnly, hModifiers⟩ := List.map_eq_singleton_iff.mp hCommands
  refine ⟨s, hScript, i, ?_, ("aspect", .list []), ?_, rfl, by decide⟩
  · rw [hOnly]
    exact List.mem_singleton_self i
  · rw [hModifiers]
    exact List.mem_singleton_self _

end Directive
