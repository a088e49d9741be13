import Directive.Proofs.Grammar.Compose
import Directive.Proofs.Token.Writing

/-!
# Commands that a grammar admitted

* `Grammar.Admits`: the commands of a grammar that were checked when they were read, wherever the
  rest of the grammar comes from;
* `Grammar.Admits.offers`: the schema of such a command is its own, and canonical;
* `IsIdentifier`, `isCommandName_iff`: the names of commands, but for a line feed at the end.
-/

namespace Directive

/-! ### Names -/

/-- A capital, then capitals, digits and underscores. -/
def IsIdentifier (name : String) : Prop :=
  isNameOf isCapital (fun c => isCapital c || c.isDigit || c == '_') name.toList = true

instance (name : String) : Decidable (IsIdentifier name) := inferInstanceAs (Decidable (_ = _))

theorem isAlpha_of_isCapital {c : Char} (h : isCapital c = true) : c.isAlpha = true := by
  simp only [isCapital, Bool.and_eq_true, decide_eq_true_eq, Char.le_def] at h
  have hUpper : c.isUpper = true := decide_eq_true h
  change (c.isUpper || c.isLower) = true
  rw [hUpper, Bool.true_or]

/-- The lexer takes identifiers as names. -/
theorem IsIdentifier.name {name : String} (h : IsIdentifier name) :
    isNameOf isNameStart isNameChar name.toList = true := by
  unfold IsIdentifier at h
  generalize name.toList = cs at h
  cases cs with
  | nil => cases h
  | cons c cs =>
    rw [isNameOf, Bool.and_eq_true, List.all_eq_true] at h ⊢
    constructor
    · simp [isNameStart, isAlpha_of_isCapital h.1]
    · intro d hd
      have hChar := h.2 d hd
      rw [Bool.or_eq_true, Bool.or_eq_true] at hChar
      obtain (hCapital | hDigit) | hLow := hChar
      · simp [isNameChar, Char.isAlphanum, isAlpha_of_isCapital hCapital]
      · simp [isNameChar, Char.isAlphanum, hDigit]
      · simp [isNameChar, hLow]

theorem IsIdentifier.noBreak {name : String} (h : IsIdentifier name) : '\n' ∉ name.toList :=
  not_mem_of_name h.name (by decide) (by decide)

/-- A name that a grammar may declare is an identifier, or one with a line feed behind it. -/
theorem isCommandName_iff {name : String} :
    isCommandName name = true ↔
      IsIdentifier name ∨ ∃ front, IsIdentifier front ∧ name = front ++ "\n" := by
  constructor
  · intro h
    unfold isCommandName dropFinalBreak at h
    split at h
    · rename_i final
      refine .inr ⟨String.ofList name.toList.dropLast, ?_, ?_⟩
      · rw [IsIdentifier, String.toList_ofList]
        exact h
      · obtain ⟨front, hName⟩ := List.getLast?_eq_some_iff.mp final
        rw [← String.toList_inj, String.toList_append, String.toList_ofList, hName,
          List.dropLast_concat]
        rfl
    · exact .inl h
  · rintro (h | ⟨front, h, rfl⟩)
    · have hKept : dropFinalBreak name.toList = name.toList :=
        if_neg fun final => h.noBreak (List.mem_of_getLast? final)
      rw [isCommandName, hKept]
      exact h
    · have hKept : dropFinalBreak (front ++ "\n").toList = front.toList := by
        simp [dropFinalBreak]
      rw [isCommandName, hKept]
      exact h

/-! ### Admitted commands -/

namespace Grammar

/-- A command of a grammar that was checked when it was read. `base` may come from anywhere. -/
inductive Admits : Grammar → String → Prop
  | reached {g : Grammar} {name : String} (start : Reachable g) (known : name ∈ g.names) :
      Admits g name
  | added {base g : Grammar} {data : Json} {name : String} (extended : base.extend data = .ok g)
      (defined : data.Defines name) : Admits g name
  | kept {base g : Grammar} {data : Json} {name : String} (start : Admits base name)
      (extended : base.extend data = .ok g) : Admits g name

/-- What a command has to be to be written down as data, and the schema that it has. -/
structure Offers (g : Grammar) (name : String) (s : Schema) : Prop where
  found : g.find? name = some s
  named : s.name = name
  isName : isCommandName name = true
  canonical : s.Canonical

theorem Canonical.offers {g : Grammar} (h : g.Canonical) {name : String} (known : name ∈ g.names) :
    ∃ s, g.Offers name s := by
  rcases hFind : g.find? name with _ | s
  · obtain ⟨e, he, rfl⟩ := List.mem_map.mp known
    have hOther := List.lookup_eq_none_iff.mp hFind e he
    simp at hOther
  · obtain ⟨isName, named, canonical⟩ := h _ (Table.mem_of_get? hFind)
    exact ⟨s, hFind, named, isName, canonical⟩

/-- What data define, an extension by them has. -/
theorem offers_of_defines {base g : Grammar} {data : Json} {name : String}
    (extended : base.extend data = .ok g) (defined : data.Defines name) :
    ∃ s, g.Offers name s := by
  obtain ⟨added, hAdded, rfl⟩ := extend_eq_ok_iff.mp extended
  obtain ⟨s, -, hFind⟩ | ⟨undefined, -⟩ := cases_of_ofData hAdded name
  · obtain ⟨isName, named, canonical⟩ := canonical_of_ofData hAdded _ (Table.mem_of_get? hFind)
    refine ⟨s, ?_, named, isName, canonical⟩
    rw [find?_merge_eq_or, hFind, Option.some_or]
  · exact absurd defined undefined

/-- **Commands that were admitted are well formed.** -/
theorem Admits.offers {g : Grammar} {name : String} (h : Admits g name) :
    ∃ s, g.Offers name s := by
  induction h with
  | reached start known => exact start.canonical.offers known
  | added extended defined => exact offers_of_defines extended defined
  | @kept base g data name _ extended ih =>
    by_cases defined : data.Defines name
    · exact offers_of_defines extended defined
    · obtain ⟨s, offered⟩ := ih
      refine ⟨s, ?_, offered.named, offered.isName, offered.canonical⟩
      rw [find?_extend extended defined, offered.found]

end Grammar

end Directive
