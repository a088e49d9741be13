import Directive.Grammar.Data
import Directive.Proofs.Data.Reading
import Directive.Proofs.Grammar.Canonical

/-!
# Grammars written as data and read again

* `canonical_of_readDomain`, `Grammar.canonical_of_readGrammar`: what is read from data is canonical;
* `Domain.read_toData`, `Schema.read_toData`, `Grammar.Canonical.read_toData`: what is canonical has a
  data form, which is read as it was;
* `Grammar.Reachable`: the grammars that reading, extending and rebuilding lead to;
* `Grammar.Reachable.ofData_toData`: all of these go through their data form unchanged.
-/

namespace Directive

/-! ### What is read is canonical -/

section Read

variable {origin : Origin}

theorem readTexts_ne_nil {j : Json} {texts : List String}
    (h : readTexts origin 1 j = .ok texts) : texts ≠ [] := by
  unfold readTexts at h
  split at h
  · obtain ⟨all, -, h⟩ := Reading.bind_eq_ok_iff.mp h
    split at h
    · cases h
    · rename_i hLong
      cases h
      rintro rfl
      exact hLong Nat.zero_lt_one
  · cases h

theorem sorted_of_readNames {fields : List (String × Json)} {name : String} {names : List String}
    (h : readNames origin fields name = .ok names) : names ≠ [] ∧ sortedSet names = names := by
  obtain ⟨⟨texts, _⟩, hBoth, h⟩ := Reading.bind_eq_ok_iff.mp h
  cases h
  obtain ⟨hTexts, -⟩ := Reading.both_eq_ok_iff.mp hBoth
  refine ⟨sortedSet_ne_nil ?_, sortedSet_sortedSet texts⟩
  obtain ⟨j, -, hTexts⟩ | ⟨-, hNone⟩ := cases_of_field hTexts
  · exact readTexts_ne_nil hTexts
  · cases hNone

theorem canonical_of_readRange {fields : List (String × Json)} {d : Domain}
    (h : readRange origin fields = .ok d) : d.Canonical := by
  obtain ⟨⟨⟨minimum, maximum⟩, _⟩, -, h⟩ := Reading.bind_eq_ok_iff.mp h
  dsimp only at h
  split at h
  · cases h
  · rename_i hOrdered
    cases h
    simpa [Domain.Canonical] using hOrdered

mutual

theorem canonical_of_readDomain {j : Json} {d : Domain} (h : readDomain origin j = .ok d) :
    d.Canonical := by
  cases j with
  | obj fields =>
    rw [readDomain] at h
    split at h
    · cases h
    · obtain ⟨_, -, rfl⟩ := Reading.map_eq_ok_iff.mp h
      trivial
    · obtain ⟨names, hNames, rfl⟩ := Reading.map_eq_ok_iff.mp h
      exact sorted_of_readNames (Reading.under_eq_ok_iff.mp hNames)
    · exact canonical_of_readRange (Reading.under_eq_ok_iff.mp h)
    · obtain ⟨⟨item, _⟩, hBoth, rfl⟩ := Reading.map_eq_ok_iff.mp h
      obtain ⟨hItem, -⟩ := Reading.both_eq_ok_iff.mp (Reading.under_eq_ok_iff.mp hBoth)
      cases hRead : readItem origin fields with
      | none =>
        rw [hRead] at hItem
        cases hItem
      | some r =>
        rw [hRead] at hItem
        cases hItem
        have hCanonical := canonical_of_readItem hRead
        exact hCanonical
    · obtain ⟨names, hNames, rfl⟩ := Reading.map_eq_ok_iff.mp h
      exact sorted_of_readNames (Reading.under_eq_ok_iff.mp hNames)
    · cases h
  | _ =>
    rw [readDomain.eq_def] at h
    cases origin <;> cases h

theorem canonical_of_readItem {fields : List (String × Json)} {d : Domain}
    (h : readItem origin fields = some (.ok d)) : d.Canonical := by
  cases fields with
  | nil => cases h
  | cons f fields =>
    obtain ⟨name, j⟩ := f
    rw [readItem] at h
    split at h
    · rename_i hRest
      cases h
      exact canonical_of_readItem hRest
    · split at h
      · exact canonical_of_readDomain (Reading.under_eq_ok_iff.mp (Option.some.inj h))
      · cases h

end

theorem canonical_of_canonicalDomains {domains : List (String × Domain)} {t : Table Domain}
    (h : canonicalDomains domains = .ok t) (canonical : ∀ e ∈ domains, e.2.Canonical) :
    ∀ e ∈ t.entries, IsCanonicalKey e.1 ∧ e.2.Canonical := by
  unfold canonicalDomains at h
  split at h
  · cases h
  · rename_i hNames
    cases h
    intro e he
    obtain ⟨d, hd, rfl⟩ := List.mem_map.mp (Table.mem_of_mem_ofList he)
    have hName := List.find?_eq_none.mp hNames d hd
    exact ⟨isCanonicalKey_canonicalKey (by simpa using hName), canonical d hd⟩

theorem canonical_of_readModifiers {j : Json} {t : Table Domain}
    (h : readModifiers origin j = .ok t) :
    ∀ e ∈ t.entries, IsCanonicalKey e.1 ∧ e.2.Canonical := by
  unfold readModifiers at h
  split at h
  · obtain ⟨domains, hDomains, h⟩ := Reading.bind_eq_ok_iff.mp h
    refine canonical_of_canonicalDomains h fun e he => ?_
    obtain ⟨f, -, hRead⟩ := exists_of_readEach hDomains (Table.mem_of_mem_ofList he)
    obtain ⟨d, hDomain, rfl⟩ := Reading.map_eq_ok_iff.mp hRead
    exact canonical_of_readDomain hDomain
  · cases h

theorem canonical_of_readSchema {name : String} {j : Json} {s : Schema}
    (h : readSchema origin name j = .ok s) : s.name = name ∧ s.Canonical := by
  unfold readSchema at h
  split at h
  · obtain ⟨⟨⟨requiresInput, slotLabel⟩, ⟨description, modifiers⟩, _⟩, hBoth, h⟩ :=
      Reading.bind_eq_ok_iff.mp h
    cases h
    obtain ⟨-, hRest⟩ := Reading.both_eq_ok_iff.mp hBoth
    obtain ⟨hFields, -⟩ := Reading.both_eq_ok_iff.mp hRest
    obtain ⟨-, hModifiers⟩ := Reading.both_eq_ok_iff.mp hFields
    refine ⟨rfl, ?_⟩
    obtain ⟨j, -, hModifiers⟩ | ⟨-, hDefault⟩ := cases_of_field hModifiers
    · exact canonical_of_readModifiers hModifiers
    · cases hDefault
      exact nofun
  · cases h

theorem canonical_of_readGrammar {j : Json} {g : Grammar} (h : readGrammar origin j = .ok g) :
    g.Canonical := by
  unfold readGrammar at h
  split at h
  · obtain ⟨schemas, hSchemas, h⟩ := Reading.bind_eq_ok_iff.mp h
    split at h
    · cases h
    · rename_i hNames
      cases h
      refine Grammar.canonical_ofSchemas fun s hs => ⟨?_, ?_⟩
      · simpa using List.find?_eq_none.mp hNames s hs
      · obtain ⟨f, -, hRead⟩ := exists_of_readEach hSchemas hs
        exact (canonical_of_readSchema hRead).2
  · cases h

end Read

namespace Grammar

theorem ofReading_eq_ok_iff {r : Reading Grammar} {g : Grammar} :
    ofReading r = .ok g ↔ r = .ok g := by
  cases r <;> simp [ofReading]

theorem canonical_of_ofData {data : Json} {g : Grammar} (h : ofData data = .ok g) :
    g.Canonical :=
  canonical_of_readGrammar (ofReading_eq_ok_iff.mp h)

theorem canonical_of_ofDocument {text : String} {g : Grammar} (h : ofDocument text = .ok g) :
    g.Canonical := by
  unfold ofDocument at h
  split at h
  · exact canonical_of_readGrammar (ofReading_eq_ok_iff.mp h)
  · cases h

theorem canonical_of_extend {g h : Grammar} {data : Json} (canonical : g.Canonical)
    (extended : g.extend data = .ok h) : h.Canonical := by
  unfold extend at extended
  rcases hAdded : ofData data with m | added
  · rw [hAdded] at extended
    cases extended
  · rw [hAdded] at extended
    cases extended
    exact canonical_merge canonical (canonical_of_ofData hAdded)

end Grammar

/-! ### What is canonical is read as it was written -/

theorem readNames_of_names (tag name : String) {names : List String}
    (nonempty : names ≠ []) (sorted : sortedSet names = names) :
    readNames .memory [(tagField, .str tag), (name, .arr (names.map .str))] name = .ok names := by
  refine Reading.bind_eq_ok_iff.mpr ⟨(names, ()), Reading.both_eq_ok_iff.mpr ⟨?_, ?_⟩, ?_⟩
  · refine field_of_value (j := .arr (names.map .str)) ?_ ?_
    · simp [lastValue?]
    · exact readTexts_of_texts (List.length_pos_iff.mpr nonempty)
  · exact noOthers_of_known (by simp)
  · exact congrArg Except.ok sorted

theorem namesData_of_names {form tag name : String} {names : List String} (nonempty : names ≠ [])
    (sorted : sortedSet names = names) :
    namesData form tag name names = .ok (tagged tag [(name, .arr (names.map .str))]) := by
  unfold namesData
  rw [if_neg (by simpa using nonempty), sorted]

theorem readRange_of_bounds {minimum maximum : Binary64} (ordered : ¬ maximum.lt minimum = true) :
    readRange .memory [(tagField, .str "range"), ("min", .float minimum), ("max", .float maximum)] =
      .ok (.range minimum maximum) := by
  refine Reading.bind_eq_ok_iff.mpr ⟨((minimum, maximum), ()), ?_, if_neg ordered⟩
  refine Reading.both_eq_ok_iff.mpr ⟨Reading.both_eq_ok_iff.mpr ⟨?_, ?_⟩, ?_⟩
  · exact field_of_value (j := .float minimum) rfl rfl
  · exact field_of_value (j := .float maximum) rfl rfl
  · exact noOthers_of_known (by simp)

theorem Domain.read_toData {d : Domain} (h : d.Canonical) :
    ∃ j, d.toData = .ok j ∧ readDomain .memory j = .ok d := by
  induction d with
  | freeText => exact ⟨_, rfl, rfl⟩
  | custom => cases h
  | choice choices =>
    obtain ⟨hSome, hSorted⟩ := h
    refine ⟨_, namesData_of_names hSome hSorted, ?_⟩
    have hNames := readNames_of_names "enum" "choices" hSome hSorted
    rw [tagged, readDomain]
    exact Reading.map_eq_ok_iff.mpr ⟨choices, Reading.under_eq_ok_iff.mpr hNames, rfl⟩
  | weights keys =>
    obtain ⟨hSome, hSorted⟩ := h
    refine ⟨_, namesData_of_names hSome hSorted, ?_⟩
    have hNames := readNames_of_names "weighted" "keys" hSome hSorted
    rw [tagged, readDomain]
    exact Reading.map_eq_ok_iff.mpr ⟨keys, Reading.under_eq_ok_iff.mpr hNames, rfl⟩
  | range minimum maximum =>
    have hOrdered : ¬ maximum.lt minimum = true := by
      rw [show maximum.lt minimum = false from h]
      exact Bool.false_ne_true
    refine ⟨_, if_neg hOrdered, ?_⟩
    rw [tagged, readDomain]
    exact Reading.under_eq_ok_iff.mpr (readRange_of_bounds hOrdered)
  | listOf item ih =>
    obtain ⟨j, hData, hRead⟩ := ih h
    have hItem : readItem .memory [(tagField, .str "list"), ("item", j)] =
        some ((readDomain .memory j).under (.field "item")) := by
      simp [readItem]
    refine ⟨tagged "list" [("item", j)], ?_, ?_⟩
    · rw [Domain.toData, hData]
      rfl
    · rw [tagged, readDomain]
      refine Reading.map_eq_ok_iff.mpr ⟨(item, ()), Reading.under_eq_ok_iff.mpr ?_, rfl⟩
      rw [hItem]
      refine Reading.both_eq_ok_iff.mpr ⟨Reading.under_eq_ok_iff.mpr hRead, ?_⟩
      exact noOthers_of_known (by simp)

/-- Where each entry can be dealt with, so can all of them. -/
theorem mapM_of_forall {ε α β : Type} {f : α → Except ε β} {P : α → β → Prop} {as : List α}
    (h : ∀ a ∈ as, ∃ b, f a = .ok b ∧ P a b) :
    ∃ bs, as.mapM f = .ok bs ∧ List.Forall₂ P as bs := by
  induction as with
  | nil => exact ⟨[], rfl, .nil⟩
  | cons a as ih =>
    obtain ⟨b, hFirst, hb⟩ := h a List.mem_cons_self
    obtain ⟨bs, hRest, hbs⟩ := ih fun a' ha' => h a' (List.mem_cons_of_mem a ha')
    refine ⟨b :: bs, ?_, .cons hb hbs⟩
    rw [List.mapM_cons, hFirst, hRest]
    rfl

section Entries

variable {α : Type} {read : String → Json → Reading α} {entries : List (String × α)}
  {dumped : List (String × Json)}

/-- The data of some entries: their names, and what each of them is read from. -/
def DataOf (read : String → Json → Reading α) (entry : String × α) (data : String × Json) : Prop :=
  data.1 = entry.1 ∧ read entry.1 data.2 = .ok entry.2

theorem DataOf.keys (h : List.Forall₂ (DataOf read) entries dumped) :
    dumped.map Prod.fst = entries.map Prod.fst := by
  induction h with
  | nil => rfl
  | cons hFirst _ ih => rw [List.map_cons, List.map_cons, hFirst.1, ih]

theorem DataOf.readEntries (h : List.Forall₂ (DataOf read) entries dumped) :
    readEach (fun f => .field f.1) (fun f => (read f.1 f.2).map (f.1, ·)) dumped =
      .ok entries := by
  rw [readEach_eq_ok_iff]
  induction h with
  | nil => exact .nil
  | cons hFirst _ ih =>
    refine .cons ?_ ih
    rw [hFirst.1, hFirst.2]
    rfl

theorem DataOf.readValues (h : List.Forall₂ (DataOf read) entries dumped) :
    readEach (fun f => .field f.1) (fun f => read f.1 f.2) dumped =
      .ok (entries.map Prod.snd) := by
  rw [readEach_eq_ok_iff]
  induction h with
  | nil => exact .nil
  | cons hFirst _ ih =>
    refine .cons ?_ ih
    rw [hFirst.1, hFirst.2]

end Entries

/-- Entries under canonical keys stay where they are. -/
theorem map_canonicalKey {α : Type} {entries : List (String × α)}
    (h : ∀ e ∈ entries, IsCanonicalKey e.1) :
    entries.map (fun e => (canonicalKey e.1, e.2)) = entries := by
  conv => rhs; rw [← List.map_id entries]
  refine List.map_congr_left fun e he => ?_
  rw [(h e he).canonicalKey_eq]
  rfl

theorem find?_canonicalKey {α : Type} {entries : List (String × α)}
    (h : ∀ e ∈ entries, IsCanonicalKey e.1) :
    entries.find? (fun e => !isKeyName (canonicalKey e.1)) = none := by
  refine List.find?_eq_none.mpr fun e he => ?_
  rw [(h e he).canonicalKey_eq, (h e he).isKeyName]
  exact Bool.false_ne_true

theorem canonicalDomains_of_canonical {t : Table Domain}
    (h : ∀ e ∈ t.entries, IsCanonicalKey e.1) : canonicalDomains t.entries = .ok t := by
  unfold canonicalDomains
  rw [find?_canonicalKey h]
  dsimp only
  rw [map_canonicalKey h, Table.ofList_entries]

/-- The modifiers of a schema have data forms, under keys that are the same. -/
theorem Schema.dump_modifiers {s : Schema} (h : s.Canonical) :
    ∃ dumped, s.modifiers.entries.mapM (fun e => e.2.toData.map (e.1, ·)) = .ok dumped ∧
      List.Forall₂ (DataOf fun _ => readDomain .memory) s.modifiers.entries dumped ∧
      (∀ e ∈ dumped, IsCanonicalKey e.1) ∧ (dumped.map Prod.fst).Nodup := by
  have hEach : ∀ e ∈ s.modifiers.entries, ∃ data, e.2.toData.map (e.1, ·) = .ok data ∧
      DataOf (fun _ => readDomain .memory) e data := by
    intro e he
    obtain ⟨j, hData, hRead⟩ := Domain.read_toData (h e he).2
    exact ⟨(e.1, j), by rw [hData]; rfl, rfl, hRead⟩
  obtain ⟨dumped, hDumped, hAll⟩ := mapM_of_forall hEach
  have hKeys := DataOf.keys hAll
  refine ⟨dumped, hDumped, hAll, fun e he => ?_, hKeys ▸ s.modifiers.nodup⟩
  have hKey := List.mem_map_of_mem (f := Prod.fst) he
  rw [hKeys] at hKey
  obtain ⟨e', he', hSame⟩ := List.mem_map.mp hKey
  exact hSame ▸ (h e' he').1

theorem readModifiers_of_dumped {t : Table Domain} {dumped : List (String × Json)}
    (canonical : ∀ e ∈ t.entries, IsCanonicalKey e.1)
    (h : List.Forall₂ (DataOf fun _ => readDomain .memory) t.entries dumped) :
    readModifiers .memory (.obj dumped) = .ok t := by
  refine Reading.bind_eq_ok_iff.mpr ⟨t.entries, DataOf.readEntries h, ?_⟩
  rw [Table.ofList_entries]
  exact canonicalDomains_of_canonical canonical

theorem Schema.read_toData {s : Schema} (h : s.Canonical) :
    ∃ j, s.toData = .ok j ∧ readSchema .memory s.name j = .ok s := by
  obtain ⟨dumped, hDumped, hAll, hCanonical, hNodup⟩ := s.dump_modifiers h
  have hModifiers := readModifiers_of_dumped (fun e he => (h e he).1) hAll
  let label : Json := s.slotLabel.elim .null .str
  have hLabel : readOptionalText label = .ok s.slotLabel := by
    cases hLabel : s.slotLabel <;> simp [label, hLabel, readOptionalText, readText, Reading.map]
  refine ⟨.obj [("requires_input", .bool s.requiresInput), ("slot_label", label),
    ("description", .str s.description), ("modifiers", .obj dumped)], ?_, ?_⟩
  · unfold Schema.toData
    rw [hDumped]
    simp only [bind, Except.bind, find?_canonicalKey hCanonical, map_canonicalKey hCanonical,
      Table.entries_ofList hNodup]
    cases hSlot : s.slotLabel <;> simp only [label, hSlot] <;> rfl
  · refine Reading.bind_eq_ok_iff.mpr ⟨((s.requiresInput, s.slotLabel),
      (s.description, s.modifiers), ()), ?_, rfl⟩
    refine Reading.both_eq_ok_iff.mpr ⟨Reading.both_eq_ok_iff.mpr ⟨?_, ?_⟩,
      Reading.both_eq_ok_iff.mpr ⟨Reading.both_eq_ok_iff.mpr ⟨?_, ?_⟩, ?_⟩⟩
    · exact field_of_value (j := .bool s.requiresInput) rfl rfl
    · exact field_of_value (j := label) rfl hLabel
    · exact field_of_value (j := .str s.description) rfl rfl
    · exact field_of_value (j := .obj dumped) rfl hModifiers
    · exact noOthers_of_known (by simp)

namespace Grammar

/-- A canonical grammar has a data form, from which it is read as it was. -/
theorem Canonical.read_toData {g : Grammar} (h : g.Canonical) :
    ∃ data, g.toData = .ok data ∧ Grammar.ofData data = .ok g := by
  have hEach : ∀ e ∈ g.schemas.entries, ∃ data, e.2.toData.map (e.1, ·) = .ok data ∧
      DataOf (readSchema .memory) e data := by
    intro e he
    obtain ⟨-, hName, hSchema⟩ := h e he
    obtain ⟨j, hData, hRead⟩ := Schema.read_toData hSchema
    exact ⟨(e.1, j), by rw [hData]; rfl, rfl, hName ▸ hRead⟩
  obtain ⟨dumped, hDumped, hAll⟩ := mapM_of_forall hEach
  refine ⟨.obj dumped, ?_, ?_⟩
  · unfold Grammar.toData
    rw [hDumped]
    rfl
  · refine ofReading_eq_ok_iff.mpr (Reading.bind_eq_ok_iff.mpr ⟨_, DataOf.readValues hAll, ?_⟩)
    have hNames : (g.schemas.entries.map Prod.snd).find? (fun s => !isCommandName s.name) = none := by
      refine List.find?_eq_none.mpr fun s hs => ?_
      obtain ⟨e, he, rfl⟩ := List.mem_map.mp hs
      obtain ⟨hCommand, hName, -⟩ := h e he
      rw [hName, hCommand]
      exact Bool.false_ne_true
    have hEntries : (g.schemas.entries.map Prod.snd).map (fun s => (s.name, s)) =
        g.schemas.entries := by
      rw [List.map_map]
      conv => rhs; rw [← List.map_id g.schemas.entries]
      refine List.map_congr_left fun e he => ?_
      simp [(h e he).2.1]
    rw [hNames]
    dsimp only
    rw [ofSchemas, hEntries, Table.ofList_entries]

/-- The grammars that reading, extending and rebuilding lead to. -/
inductive Reachable : Grammar → Prop
  | ofData {data : Json} {g : Grammar} (read : Grammar.ofData data = .ok g) : Reachable g
  | ofDocument {text : String} {g : Grammar} (read : Grammar.ofDocument text = .ok g) :
      Reachable g
  | builtin : Reachable .builtin
  | extend {g h : Grammar} {data : Json} (start : Reachable g)
      (extended : g.extend data = .ok h) : Reachable h
  | rebuilt {g h : Grammar} {data : Json} (start : Reachable g) (dumped : g.toData = .ok data)
      (read : Grammar.ofData data = .ok h) : Reachable h

theorem Reachable.canonical {g : Grammar} (h : Reachable g) : g.Canonical := by
  induction h with
  | ofData read => exact canonical_of_ofData read
  | ofDocument read => exact canonical_of_ofDocument read
  | builtin => exact canonical_builtin
  | extend _ extended ih => exact canonical_of_extend ih extended
  | rebuilt _ _ read _ => exact canonical_of_ofData read

/-- **Grammars go through their data form unchanged.** Every grammar that is read, extended or rebuilt
has a data form. What is read from that is the same grammar: the same commands in the same order, each
with the same modifiers in the same order and with the same domains. So it has the same data form
again. -/
theorem Reachable.ofData_toData {g : Grammar} (h : Reachable g) :
    ∃ data, g.toData = .ok data ∧ Grammar.ofData data = .ok g :=
  h.canonical.read_toData

/-- The built-in grammar with a command whose modifier has an unusual key. -/
theorem ofData_toData_extended :
    ∃ g data, Grammar.builtin.extend (.obj [("TAG", .obj [("modifiers", .obj
        [(" Max-Tags", tagged "list" [("item", tagged "enum"
          [("choices", .arr [.str "b", .str "a", .str "b"])])])])])]) = .ok g ∧
      (g.find? "TAG").map (·.modifiers.keys) = some ["max_tags"] ∧
      g.toData = .ok data ∧ Grammar.ofData data = .ok g := by
  generalize hExtension : (Json.obj [("TAG", .obj [("modifiers", .obj
    [(" Max-Tags", tagged "list" [("item", tagged "enum"
      [("choices", .arr [.str "b", .str "a", .str "b"])])])])])]) = extension
  have hKeys : (Grammar.builtin.extend extension).toOption.map (fun g =>
      (g.find? "TAG").map (·.modifiers.keys)) = some (some ["max_tags"]) := by
    subst hExtension
    decide +kernel
  rcases hExtended : Grammar.builtin.extend extension with m | g
  · rw [hExtended] at hKeys
    cases hKeys
  · rw [hExtended] at hKeys
    obtain ⟨data, hDumped, hRead⟩ := (Reachable.builtin.extend hExtended).ofData_toData
    exact ⟨g, data, rfl, Option.some.inj hKeys, hDumped, hRead⟩

end Grammar

end Directive
