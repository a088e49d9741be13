import Directive.Proofs.Grammar.RoundTrip

/-!
# Data forms of grammars that were built by hand

A grammar that was put together from schemas has passed none of the checks that are made on data. Its
data form makes most of them up: keys become canonical, names are sorted, and what no data can say is
refused. The names of commands are left as they are.

* `Domain.settled`, `Schema.settled`, `Grammar.settled`: what a data form says, as a grammar;
* `Domain.Unwritable`, `Schema.Unwritable`, `Grammar.Unwritable`: what has no data form, and why;
* `Schema.canonical_settled`: a schema with a data form is canonical once it is settled, and keeps its
  data form;
* `Grammar.ofData_dumped`: which grammar, or which error, is read from a data form.
-/

namespace Directive

/-! ### Effects on each item of a list -/

section Each

variable {ε α β : Type} {f : α → Except ε β}

theorem mapM_eq_ok_iff {as : List α} {bs : List β} :
    as.mapM f = .ok bs ↔ List.Forall₂ (fun a b => f a = .ok b) as bs := by
  induction as generalizing bs with
  | nil => simp [pure, Except.pure, eq_comm]
  | cons a as ih =>
    rw [List.mapM_cons, List.forall₂_cons_left_iff]
    simp only [← ih]
    cases f a with
    | error x => simp [bind, Except.bind]
    | ok b =>
      cases as.mapM f with
      | error x => simp [bind, Except.bind]
      | ok bs' => simp [bind, Except.bind, pure, Except.pure, eq_comm]

/-- The error of a whole list is that of one of its items. -/
theorem exists_of_mapM_eq_error {as : List α} {x : ε} (h : as.mapM f = .error x) :
    ∃ a ∈ as, f a = .error x := by
  induction as with
  | nil => cases h
  | cons a as ih =>
    rw [List.mapM_cons] at h
    cases hFirst : f a with
    | error y =>
      rw [hFirst] at h
      cases h
      exact ⟨a, List.mem_cons_self, hFirst⟩
    | ok b =>
      cases hRest : as.mapM f with
      | error y =>
        rw [hFirst, hRest] at h
        cases h
        obtain ⟨a', ha', hError⟩ := ih hRest
        exact ⟨a', List.mem_cons_of_mem a ha', hError⟩
      | ok bs =>
        rw [hFirst, hRest] at h
        cases h

end Each

section Dumped

variable {α : Type} {dump : α → Except DumpFailure Json} {entries : List (String × α)}
  {dumped : List (String × Json)}

/-- The data of some entries: their names, and what each of them is dumped as. -/
def DumpOf (dump : α → Except DumpFailure Json) (entry : String × α) (data : String × Json) : Prop :=
  entry.1 = data.1 ∧ dump entry.2 = .ok data.2

theorem dumpEntry_eq_ok_iff {entry : String × α} {data : String × Json} :
    (dump entry.2).map (entry.1, ·) = .ok data ↔ DumpOf dump entry data := by
  unfold DumpOf
  cases dump entry.2 <;> simp [Except.map, Prod.ext_iff]

theorem dumpEntry_eq_error_iff {entry : String × α} {f : DumpFailure} :
    (dump entry.2).map (entry.1, ·) = .error f ↔ dump entry.2 = .error f := by
  cases dump entry.2 <;> simp [Except.map]

theorem dumpEntries_eq_ok_iff :
    entries.mapM (fun e => (dump e.2).map (e.1, ·)) = .ok dumped ↔
      List.Forall₂ (DumpOf dump) entries dumped := by
  simp only [mapM_eq_ok_iff, dumpEntry_eq_ok_iff]

theorem exists_of_dumpEntries {f : DumpFailure}
    (h : entries.mapM (fun e => (dump e.2).map (e.1, ·)) = .error f) :
    ∃ e ∈ entries, dump e.2 = .error f := by
  obtain ⟨e, he, hError⟩ := exists_of_mapM_eq_error h
  exact ⟨e, he, dumpEntry_eq_error_iff.mp hError⟩

/-- Where all entries were dumped, each of them was. -/
theorem dump_of_mem (h : List.Forall₂ (DumpOf dump) entries dumped) :
    ∀ e ∈ entries, ∃ j, dump e.2 = .ok j := by
  induction h with
  | nil => exact nofun
  | cons first _ ih => exact List.forall_mem_cons.mpr ⟨⟨_, first.2⟩, ih⟩

end Dumped

/-! ### Domains -/

namespace Domain

/-- The domain with names as data shows them. -/
def settled : Domain → Domain
  | .choice choices => .choice (sortedSet choices)
  | .weights keys => .weights (sortedSet keys)
  | .listOf item => .listOf item.settled
  | d => d

/-- Domains without a data form, and what is said of them. -/
inductive Unwritable : Domain → DumpFailure → Prop
  | custom (name : String) (check : Setting → Option String) (description : String) :
      Unwritable (.custom name check description) (.noDataForm name)
  | noChoices :
      Unwritable (.choice []) (.malformed ⟨"EnumSpec", [⟨[.field "choices"], .listTooShort 1 0⟩]⟩)
  | noKeys :
      Unwritable (.weights []) (.malformed ⟨"WeightedSpec", [⟨[.field "keys"], .listTooShort 1 0⟩]⟩)
  | reversed {minimum maximum : Binary64} (order : maximum.lt minimum = true) :
      Unwritable (.range minimum maximum)
        (.malformed ⟨"RangeSpec", [⟨[], rangeRule minimum maximum⟩]⟩)
  | item {d : Domain} {f : DumpFailure} (h : Unwritable d f) : Unwritable (.listOf d) f

theorem Unwritable.toData_eq {d : Domain} {f : DumpFailure} (h : d.Unwritable f) :
    d.toData = .error f := by
  induction h with
  | custom | noChoices | noKeys => rfl
  | reversed order => exact if_pos order
  | item _ ih =>
    rw [toData, ih]
    rfl

/-- A domain has a data form, or there is a reason why it has none. -/
theorem cases_toData (d : Domain) : (∃ f, d.Unwritable f) ∨ ∃ j, d.toData = .ok j := by
  induction d with
  | freeText => exact .inr ⟨_, rfl⟩
  | custom name check description => exact .inl ⟨_, .custom name check description⟩
  | choice choices =>
    cases choices with
    | nil => exact .inl ⟨_, .noChoices⟩
    | cons name names => exact .inr ⟨_, rfl⟩
  | weights keys =>
    cases keys with
    | nil => exact .inl ⟨_, .noKeys⟩
    | cons name names => exact .inr ⟨_, rfl⟩
  | range minimum maximum =>
    by_cases order : maximum.lt minimum = true
    · exact .inl ⟨_, .reversed order⟩
    · exact .inr ⟨_, if_neg order⟩
  | listOf item ih =>
    obtain ⟨f, h⟩ | ⟨j, h⟩ := ih
    · exact .inl ⟨f, .item h⟩
    · refine .inr ⟨tagged "list" [("item", j)], ?_⟩
      rw [toData, h]
      rfl

theorem unwritable_of_toData {d : Domain} {f : DumpFailure} (h : d.toData = .error f) :
    d.Unwritable f := by
  obtain ⟨f', hReason⟩ | ⟨j, hData⟩ := d.cases_toData
  · have hSame := hReason.toData_eq.symm.trans h
    cases hSame
    exact hReason
  · rw [hData] at h
    cases h

theorem namesData_sortedSet (form tag name : String) (names : List String) :
    namesData form tag name (sortedSet names) = namesData form tag name names := by
  cases names with
  | nil => simp [sortedSet]
  | cons first names =>
    have hSome : first :: names ≠ [] := List.cons_ne_nil first names
    rw [namesData_of_names (sortedSet_ne_nil hSome) (sortedSet_sortedSet _)]
    rfl

/-- Settling a domain does not change its data form. -/
theorem toData_settled (d : Domain) : d.settled.toData = d.toData := by
  induction d with
  | freeText | custom | range => rfl
  | choice | weights => exact namesData_sortedSet _ _ _ _
  | listOf item ih => rw [settled, toData, toData, ih]

theorem canonical_settled {d : Domain} {j : Json} (h : d.toData = .ok j) : d.settled.Canonical := by
  induction d generalizing j with
  | freeText => trivial
  | custom => cases h
  | choice choices =>
    refine ⟨sortedSet_ne_nil ?_, sortedSet_sortedSet choices⟩
    rintro rfl
    cases h
  | weights keys =>
    refine ⟨sortedSet_ne_nil ?_, sortedSet_sortedSet keys⟩
    rintro rfl
    cases h
  | range minimum maximum =>
    apply Bool.eq_false_of_not_eq_true
    intro order
    rw [(Unwritable.reversed order).toData_eq] at h
    cases h
  | listOf item ih =>
    cases hItem : item.toData with
    | error f =>
      rw [toData, hItem] at h
      cases h
    | ok j' => exact ih hItem

end Domain

/-! ### Schemas -/

namespace Schema

variable {s : Schema} {j : Json}

/-- The schema that a data form shows under a name. Of modifiers whose keys become the same, the last
one counts, in the place of the first. -/
def settled (s : Schema) (name : String) : Schema :=
  { s with
    name
    modifiers := Table.ofList (s.modifiers.entries.map fun e => (canonicalKey e.1, e.2.settled)) }

/-- Schemas without a data form: a modifier has none, or its key cannot be made canonical. -/
inductive Unwritable (s : Schema) : DumpFailure → Prop
  | domain {key : String} {d : Domain} {f : DumpFailure} (declared : (key, d) ∈ s.modifiers.entries)
      (h : d.Unwritable f) : Unwritable s f
  | key {key : String} {d : Domain} (declared : (key, d) ∈ s.modifiers.entries)
      (bad : isKeyName (canonicalKey key) = false) :
      Unwritable s (.malformed ⟨"CommandSpec", [⟨[.field "modifiers"], keyRule key⟩]⟩)

/-- The data form with these modifiers. -/
def dataWith (s : Schema) (modifiers : List (String × Json)) : Json :=
  .obj [("requires_input", .bool s.requiresInput), ("slot_label", s.slotLabel.elim .null .str),
    ("description", .str s.description), ("modifiers", .obj modifiers)]

/-- What was dumped of some modifiers, under canonical keys. -/
def settledData (dumped : List (String × Json)) : Table Json :=
  Table.ofList (dumped.map fun d => (canonicalKey d.1, d.2))

/-- The keys of what was dumped are those that are declared. -/
theorem mem_keys_iff_of_dumped {dumped : List (String × Json)}
    (h : List.Forall₂ (DumpOf Domain.toData) s.modifiers.entries dumped) {key : String} :
    key ∈ dumped.map Prod.fst ↔ ∃ d, (key, d) ∈ s.modifiers.entries := by
  rw [← Table.map_fst_of_forall₂ And.left h]
  simp

theorem toData_of_dumped {dumped : List (String × Json)}
    (h : List.Forall₂ (DumpOf Domain.toData) s.modifiers.entries dumped)
    (keys : ∀ d ∈ dumped, isKeyName (canonicalKey d.1) = true) :
    s.toData = .ok (s.dataWith (settledData dumped).entries) := by
  have hNone : dumped.find? (fun d => !isKeyName (canonicalKey d.1)) = none := by
    apply List.find?_eq_none.mpr
    intro d hd
    rw [keys d hd]
    exact Bool.false_ne_true
  unfold toData
  rw [dumpEntries_eq_ok_iff.mpr h]
  simp only [bind, Except.bind, hNone, dataWith]
  cases s.slotLabel <;> rfl

/-- A schema has a data form under the keys that its modifiers declare, or a reason to have none. -/
theorem cases_toData (s : Schema) :
    (∃ f, s.toData = .error f ∧ s.Unwritable f) ∨
      ∃ dumped, List.Forall₂ (DumpOf Domain.toData) s.modifiers.entries dumped ∧
        ∀ d ∈ dumped, isKeyName (canonicalKey d.1) = true := by
  cases hDumped : s.modifiers.entries.mapM fun e => e.2.toData.map (e.1, ·) with
  | error f =>
    obtain ⟨e, he, hError⟩ := exists_of_dumpEntries hDumped
    refine .inl ⟨f, ?_, .domain he (Domain.unwritable_of_toData hError)⟩
    unfold toData
    rw [hDumped]
    rfl
  | ok dumped =>
    have hAll := dumpEntries_eq_ok_iff.mp hDumped
    cases hBad : dumped.find? fun d => !isKeyName (canonicalKey d.1) with
    | none =>
      refine .inr ⟨dumped, hAll, fun d hd => ?_⟩
      simpa using List.find?_eq_none.mp hBad d hd
    | some d =>
      have hKey := List.mem_map_of_mem (f := Prod.fst) (List.mem_of_find?_eq_some hBad)
      obtain ⟨domain, declared⟩ := (mem_keys_iff_of_dumped hAll).mp hKey
      refine .inl ⟨_, ?_, .key declared (by simpa using List.find?_some hBad)⟩
      unfold toData
      rw [hDumped]
      simp only [bind, Except.bind, hBad]

theorem not_unwritable_of_toData (h : s.toData = .ok j) (f : DumpFailure) : ¬ s.Unwritable f := by
  obtain ⟨f', hError, -⟩ | ⟨dumped, hAll, hKeys⟩ := s.cases_toData
  · rw [h] at hError
    cases hError
  · intro hReason
    cases hReason with
    | domain declared hReason =>
      obtain ⟨j', hData⟩ := dump_of_mem hAll _ declared
      rw [hReason.toData_eq] at hData
      cases hData
    | key declared bad =>
      obtain ⟨d, hd, hKey⟩ := List.mem_map.mp ((mem_keys_iff_of_dumped hAll).mpr ⟨_, declared⟩)
      rw [← hKey, hKeys d hd] at bad
      cases bad

section Settled

variable {dumped : List (String × Json)}

theorem isCanonicalKey_settledData (keys : ∀ d ∈ dumped, isKeyName (canonicalKey d.1) = true) :
    ∀ d ∈ (settledData dumped).entries, IsCanonicalKey d.1 := by
  intro d hd
  obtain ⟨d', hd', rfl⟩ := List.mem_map.mp (Table.mem_of_mem_ofList hd)
  exact isCanonicalKey_canonicalKey (keys d' hd')

variable (h : List.Forall₂ (DumpOf Domain.toData) s.modifiers.entries dumped)

include h

/-- Keys that become the same do so in the schema and in its data, so the entries correspond. -/
theorem dumped_settled (name : String) :
    List.Forall₂ (DumpOf Domain.toData) (s.settled name).modifiers.entries
      (settledData dumped).entries := by
  refine Table.forall₂_foldl_put And.left ?_ .nil
  rw [List.forall₂_map_left_iff, List.forall₂_map_right_iff]
  apply h.imp
  intro e d hDump
  exact ⟨congrArg canonicalKey hDump.1, (Domain.toData_settled e.2).trans hDump.2⟩

theorem canonical_of_dumped (keys : ∀ d ∈ dumped, isKeyName (canonicalKey d.1) = true)
    (name : String) : (s.settled name).Canonical := by
  intro e he
  obtain ⟨e', he', rfl⟩ := List.mem_map.mp (Table.mem_of_mem_ofList he)
  obtain ⟨j', hData⟩ := dump_of_mem h e' he'
  obtain ⟨d, hd, hKey⟩ := List.mem_map.mp ((mem_keys_iff_of_dumped h).mpr ⟨e'.2, he'⟩)
  exact ⟨isCanonicalKey_canonicalKey (hKey ▸ keys d hd), Domain.canonical_settled hData⟩

theorem settled_toData_of_dumped (keys : ∀ d ∈ dumped, isKeyName (canonicalKey d.1) = true)
    (name : String) : (s.settled name).toData = .ok (s.dataWith (settledData dumped).entries) := by
  have hKeys := isCanonicalKey_settledData keys
  have hSame : settledData (settledData dumped).entries = settledData dumped := by
    rw [settledData, map_canonicalKey hKeys, Table.ofList_entries]
  rw [toData_of_dumped (dumped_settled h name), hSame]
  · rfl
  · intro d hd
    rw [(hKeys d hd).canonicalKey_eq]
    exact (hKeys d hd).isKeyName

end Settled

/-- A schema with a data form is canonical once it is settled, and keeps its data form. -/
theorem canonical_settled (h : s.toData = .ok j) (name : String) :
    (s.settled name).Canonical ∧ (s.settled name).toData = .ok j := by
  obtain ⟨f, hError, -⟩ | ⟨dumped, hAll, hKeys⟩ := s.cases_toData
  · rw [h] at hError
    cases hError
  · have hData := toData_of_dumped hAll hKeys
    rw [h] at hData
    rw [hData]
    exact ⟨canonical_of_dumped hAll hKeys name, settled_toData_of_dumped hAll hKeys name⟩

/-- What is read from a data form is the settled schema. -/
theorem read_of_toData (h : s.toData = .ok j) (name : String) :
    readSchema .memory name j = .ok (s.settled name) := by
  obtain ⟨hCanonical, hData⟩ := canonical_settled h name
  obtain ⟨j', hData', hRead⟩ := read_toData hCanonical
  rw [hData] at hData'
  cases hData'
  exact hRead

end Schema

/-! ### Grammars -/

namespace Grammar

variable {g : Grammar} {data : Json}

/-- The grammar that a data form shows: each command has the name under which it stands. -/
def settled (g : Grammar) : Grammar := ofSchemas (g.schemas.entries.map fun e => e.2.settled e.1)

def Unwritable (g : Grammar) (f : DumpFailure) : Prop := ∃ s ∈ g.schemas.values, s.Unwritable f

theorem entries_settled (g : Grammar) :
    g.settled.schemas.entries = g.schemas.entries.map fun e => (e.1, e.2.settled e.1) := by
  have hNamed : (g.schemas.entries.map fun e => e.2.settled e.1).map (fun s => (s.name, s)) =
      g.schemas.entries.map fun e => (e.1, e.2.settled e.1) := by
    rw [List.map_map]
    rfl
  rw [settled, ofSchemas, hNamed]
  apply Table.entries_ofList
  rw [List.map_map]
  exact g.schemas.nodup

theorem names_settled (g : Grammar) : g.settled.names = g.names := by
  rw [names, Table.keys, entries_settled, List.map_map]
  rfl

theorem toData_of_dumped {dumped : List (String × Json)}
    (h : List.Forall₂ (DumpOf Schema.toData) g.schemas.entries dumped) :
    g.toData = .ok (.obj dumped) := by
  unfold toData
  rw [dumpEntries_eq_ok_iff.mpr h]
  rfl

theorem cases_toData (g : Grammar) :
    (∃ f, g.toData = .error f ∧ g.Unwritable f) ∨
      ∃ dumped, List.Forall₂ (DumpOf Schema.toData) g.schemas.entries dumped := by
  cases hDumped : g.schemas.entries.mapM fun e => e.2.toData.map (e.1, ·) with
  | error f =>
    obtain ⟨e, he, hError⟩ := exists_of_dumpEntries hDumped
    obtain ⟨f', hError', hReason⟩ | ⟨dumped, hAll, hKeys⟩ := e.2.cases_toData
    · rw [hError] at hError'
      cases hError'
      refine .inl ⟨f, ?_, e.2, List.mem_map_of_mem he, hReason⟩
      unfold toData
      rw [hDumped]
      rfl
    · rw [Schema.toData_of_dumped hAll hKeys] at hError
      cases hError
  | ok dumped => exact .inr ⟨dumped, dumpEntries_eq_ok_iff.mp hDumped⟩

section Dumped

variable {dumped : List (String × Json)}
  (h : List.Forall₂ (DumpOf Schema.toData) g.schemas.entries dumped)

include h

theorem not_unwritable_of_dumped (f : DumpFailure) : ¬ g.Unwritable f := by
  rintro ⟨s, hs, hReason⟩
  obtain ⟨e, he, rfl⟩ := List.mem_map.mp hs
  obtain ⟨j, hData⟩ := dump_of_mem h e he
  exact Schema.not_unwritable_of_toData hData f hReason

theorem settled_toData_of_dumped : g.settled.toData = .ok (.obj dumped) := by
  apply toData_of_dumped
  rw [entries_settled, List.forall₂_map_left_iff]
  apply h.imp
  intro e d hDump
  exact ⟨hDump.1, (Schema.canonical_settled hDump.2 e.1).2⟩

/-- What is read is the settled grammar, if all its names may be names of commands. -/
theorem ofData_of_dumped :
    ofData (.obj dumped) = match g.names.find? fun name => !isCommandName name with
      | some name => .error ⟨form, [⟨[], nameRule name⟩]⟩
      | none => .ok g.settled := by
  have hRead : readEach (fun f => .field f.1) (fun f => readSchema .memory f.1 f.2) dumped =
      .ok (g.schemas.entries.map fun e => e.2.settled e.1) := by
    rw [readEach_eq_ok_iff, List.forall₂_map_right_iff]
    apply h.flip.imp
    intro d e hDump
    rw [← hDump.1]
    exact Schema.read_of_toData hDump.2 e.1
  -- Each settled schema has the name under which the grammar has it.
  have hFind : (g.schemas.entries.map fun e => e.2.settled e.1).find?
      (fun s => !isCommandName s.name) =
        (g.schemas.entries.find? fun e => !isCommandName e.1).map fun e => e.2.settled e.1 := by
    rw [List.find?_map]
    rfl
  have hNames : g.names.find? (fun name => !isCommandName name) =
      (g.schemas.entries.find? fun e => !isCommandName e.1).map Prod.fst := by
    rw [names, Table.keys, List.find?_map]
    rfl
  rw [ofData, readGrammar, hRead, hNames]
  simp only [bind, Except.bind, hFind]
  cases g.schemas.entries.find? fun e => !isCommandName e.1 <;> rfl

end Dumped

/-- **Data forms of grammars that were built by hand.** A grammar has a data form, or something in it
has none: a domain from outside this library, a choice without choices, weights without keys, a range
whose bounds are in the wrong order, or a modifier whose key cannot be made canonical. The data form is
read back if every name in it may be the name of a command: as the settled grammar, which has the same
names and the same data form. Otherwise it is not read, and the first other name is said to be
invalid. -/
theorem loadable_or_unwritable (g : Grammar) :
    (∃ f, g.toData = .error f ∧ g.Unwritable f) ∨
      ∃ data, g.toData = .ok data ∧ (∀ f, ¬ g.Unwritable f) ∧
        ((∀ name ∈ g.names, isCommandName name = true) →
          ofData data = .ok g.settled ∧ g.settled.names = g.names ∧
            g.settled.toData = .ok data) ∧
        ∀ name ∈ g.names.find? fun name => !isCommandName name,
          ofData data = .error ⟨form, [⟨[], nameRule name⟩]⟩ := by
  obtain hReason | ⟨dumped, h⟩ := g.cases_toData
  · exact .inl hReason
  · refine .inr ⟨.obj dumped, toData_of_dumped h, not_unwritable_of_dumped h, ?_, ?_⟩
    · intro allowed
      have hNone : g.names.find? (fun name => !isCommandName name) = none := by
        apply List.find?_eq_none.mpr
        intro name hName
        rw [allowed name hName]
        exact Bool.false_ne_true
      refine ⟨?_, g.names_settled, settled_toData_of_dumped h⟩
      rw [ofData_of_dumped h, hNone]
    · intro name hName
      rw [ofData_of_dumped h, Option.mem_def.mp hName]

/-- A schema with another name than that under which it stands, and with two keys that become the
same. -/
theorem loadable_of_otherName :
    ∃ g data, g = Grammar.mk (.ofList [("TAG", {
        name := "tag"
        modifiers := .ofList [(" Max-Tags", .freeText), ("max_tags", .listOf .freeText)] })]) ∧
      g.toData = .ok data ∧ ofData data = .ok g.settled ∧
      (g.settled.find? "TAG").map (fun s => (s.name, s.modifiers.entries)) =
        some ("TAG", [("max_tags", .listOf .freeText)]) := by
  generalize hMade : Grammar.mk (.ofList [("TAG", {
    name := "tag"
    modifiers := .ofList [(" Max-Tags", .freeText), ("max_tags", .listOf .freeText)] })]) = g
  have hNames : ∀ name ∈ g.names, isCommandName name = true := by
    subst hMade
    decide +kernel
  have hSettled : (g.settled.find? "TAG").map (fun s => (s.name, s.modifiers.entries)) =
      some ("TAG", [("max_tags", .listOf .freeText)]) := by
    subst hMade
    rfl
  obtain ⟨f, hError, -⟩ | ⟨data, hData, -, hRead, -⟩ := g.loadable_or_unwritable
  · have hSome : g.toData.isOk = true := by
      subst hMade
      decide +kernel
    rw [hError] at hSome
    cases hSome
  · exact ⟨g, data, rfl, hData, (hRead hNames).1, hSettled⟩

/-- The data form of a grammar with a command in small letters is not read. -/
theorem not_loadable_of_smallLetters :
    ∃ data, (ofSchemas [{ name := "search" }]).toData = .ok data ∧ ∀ g, ofData data ≠ .ok g := by
  refine ⟨.obj [("search", Schema.dataWith { name := "search" } [])], rfl, ?_⟩
  have hRead : ofData (.obj [("search", Schema.dataWith { name := "search" } [])]) =
      .error ⟨form, [⟨[], nameRule "search"⟩]⟩ := by
    rfl
  rw [hRead]
  exact nofun

end Grammar

end Directive
