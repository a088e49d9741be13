import Directive.Proofs.Grammar.Compose

/-!
# The domains of a command's modifiers

* `Json.ModifiersOf`: the modifiers that data declare for a command, under keys as they are written;
* `DeclaresLast`: the last of them with a canonical key;
* `Grammar.modifiers_of_ofData`: its domain is the one that the grammar has under that key.
-/

namespace Directive

/-- The modifiers that data declare for a command: the fields of its `modifiers`, in their order. -/
def Json.ModifiersOf (data : Json) (name : String) (declared : List (String × Json)) : Prop :=
  ∃ commands fields modifiers, data = .obj commands ∧
    lastValue? commands name = some (.obj fields) ∧
    lastValue? fields "modifiers" = some (.obj modifiers) ∧
    declared = (Table.ofList modifiers).entries

/-- Of the fields whose keys become this canonical key the last one declares the domain. -/
def DeclaresLast (origin : Origin) (declared : List (String × Json)) (key : String) (d : Domain) :
    Prop :=
  ∃ earlier f later, declared = earlier ++ f :: later ∧ canonicalKey f.1 = key ∧
    (∀ e ∈ later, canonicalKey e.1 ≠ key) ∧ readDomain origin f.2 = .ok d

/-- A field of an object of domains, and the domain that is read from it. -/
def DomainBy (origin : Origin) (f : String × Json) (e : String × Domain) : Prop :=
  f.1 = e.1 ∧ readDomain origin f.2 = .ok e.2

variable {origin : Origin}

theorem declaresLast_or_absent {declared : List (String × Json)} {domains : List (String × Domain)}
    (h : List.Forall₂ (DomainBy origin) declared domains) (key : String) :
    (∃ d, DeclaresLast origin declared key d ∧
      (domains.map fun e => (canonicalKey e.1, e.2)).reverse.lookup key = some d) ∨
      (∀ f ∈ declared, canonicalKey f.1 ≠ key) ∧
        (domains.map fun e => (canonicalKey e.1, e.2)).reverse.lookup key = none := by
  induction h with
  | nil => exact .inr ⟨List.forall_mem_nil _, rfl⟩
  | @cons f e declared domains first _ ih =>
    obtain ⟨hName, hRead⟩ := first
    rw [List.map_cons, List.reverse_cons, List.lookup_append, ← hName]
    obtain ⟨d, ⟨earlier, last, later, rfl, hLast⟩, hFound⟩ | ⟨hOther, hNone⟩ := ih
    · rw [hFound, Option.some_or]
      exact .inl ⟨d, ⟨f :: earlier, last, later, rfl, hLast⟩, rfl⟩
    · rw [hNone, Option.none_or, List.lookup_cons]
      by_cases here : canonicalKey f.1 = key
      · rw [here, beq_self_eq_true]
        exact .inl ⟨e.2, ⟨[], f, declared, rfl, here, hOther, hRead⟩, rfl⟩
      · rw [beq_false_of_ne (Ne.symm here)]
        exact .inr ⟨List.forall_mem_cons.mpr ⟨here, hOther⟩, rfl⟩

/-- A key that is declared has the domain that is declared for it last, however it is written. -/
theorem get?_of_readModifiers {modifiers : List (String × Json)} {t : Table Domain}
    (h : readModifiers origin (.obj modifiers) = .ok t) {f : String × Json}
    (mem : f ∈ (Table.ofList modifiers).entries) :
    ∃ d, DeclaresLast origin (Table.ofList modifiers).entries (canonicalKey f.1) d ∧
      t.get? (canonicalKey f.1) = some d := by
  obtain ⟨domains, hDomains, hCanonical⟩ := Reading.bind_eq_ok_iff.mp h
  have hAll : List.Forall₂ (DomainBy origin) modifiers domains := by
    apply (readEach_eq_ok_iff.mp hDomains).imp
    intro f e hRead
    obtain ⟨d, hDomain, rfl⟩ := Reading.map_eq_ok_iff.mp hRead
    exact ⟨rfl, hDomain⟩
  have hEntries : List.Forall₂ (DomainBy origin) (Table.ofList modifiers).entries
      (Table.ofList domains).entries :=
    Table.forall₂_foldl_put (fun h => h.1) hAll .nil
  unfold canonicalDomains at hCanonical
  split at hCanonical
  · cases hCanonical
  cases hCanonical
  rw [Table.get?_ofList]
  obtain found | ⟨hAbsent, -⟩ := declaresLast_or_absent hEntries (canonicalKey f.1)
  · exact found
  · exact absurd rfl (hAbsent f mem)

theorem readModifiers_of_readSchema {name : String} {fields : List (String × Json)} {j : Json}
    {s : Schema} (h : readSchema origin name (.obj fields) = .ok s)
    (value : lastValue? fields "modifiers" = some j) : readModifiers origin j = .ok s.modifiers := by
  obtain ⟨⟨⟨requiresInput, slotLabel⟩, ⟨description, modifiers⟩, _⟩, hBoth, h⟩ :=
    Reading.bind_eq_ok_iff.mp h
  cases h
  obtain ⟨-, hRest⟩ := Reading.both_eq_ok_iff.mp hBoth
  obtain ⟨hFields, -⟩ := Reading.both_eq_ok_iff.mp hRest
  obtain ⟨-, hModifiers⟩ := Reading.both_eq_ok_iff.mp hFields
  obtain ⟨j', hValue, hRead⟩ | ⟨hNone, -⟩ := cases_of_field hModifiers
  · rw [value] at hValue
    cases hValue
    exact hRead
  · rw [value] at hNone
    cases hNone

/-- A grammar has each declared modifier under its canonical key, with the domain that is declared
last. -/
theorem Grammar.modifiers_of_ofData {data : Json} {g : Grammar} (h : ofData data = .ok g)
    {name : String} {declared : List (String × Json)} (declares : data.ModifiersOf name declared)
    {f : String × Json} (mem : f ∈ declared) :
    ∃ schema d, g.find? name = some schema ∧ DeclaresLast .memory declared (canonicalKey f.1) d ∧
      schema.modifiers.get? (canonicalKey f.1) = some d := by
  obtain ⟨commands, fields, modifiers, rfl, hCommand, hModifiers, rfl⟩ := declares
  obtain ⟨s, ⟨commands', j, hData, hField, hRead⟩, hFound⟩ | ⟨hOther, -⟩ := cases_of_ofData h name
  · cases hData
    rw [hCommand] at hField
    cases hField
    have hTable := readModifiers_of_readSchema hRead hModifiers
    obtain ⟨d, hLast, hDomain⟩ := get?_of_readModifiers hTable mem
    exact ⟨s, d, hFound, hLast, hDomain⟩
  · exact absurd ⟨commands, rfl, mem_of_lastValue? hCommand⟩ hOther

end Directive
