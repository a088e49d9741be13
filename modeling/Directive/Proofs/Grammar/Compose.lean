import Directive.Proofs.Grammar.Extension

/-!
# One extension after another

Each command is read on its own, so that a grammar that was read has the commands of its data in their
order, and the last of repeated commands counts. From this:

* `readGrammar_eq_ok_iff`, `Json.Declares`: what a grammar has from its data;
* `Grammar.extend_eq_ok_iff`: what an extension adds;
* `Grammar.extend_merged`, `Grammar.find?_extendAll`: extensions one after another, and at once;
* `Grammar.attempt`: attempts to extend any of the grammars made so far.
-/

namespace Directive

/-! ### Commands read on their own -/

/-- A field of an object of commands, and the command that is read from it. -/
def DeclaredBy (origin : Origin) (f : String × Json) (e : String × Schema) : Prop :=
  f.1 = e.1 ∧ isCommandName f.1 = true ∧ readSchema origin f.1 f.2 = .ok e.2

/-- A grammar is read field by field. No field has a say in what another one declares. -/
theorem readGrammar_eq_ok_iff {origin : Origin} {data : Json} {g : Grammar} :
    readGrammar origin data = .ok g ↔
      ∃ fields commands, data = .obj fields ∧
        List.Forall₂ (DeclaredBy origin) fields commands ∧ g = ⟨Table.ofList commands⟩ := by
  constructor
  · intro h
    unfold readGrammar at h
    split at h
    · rename_i fields
      obtain ⟨schemas, hSchemas, h⟩ := Reading.bind_eq_ok_iff.mp h
      split at h
      · cases h
      rename_i hNames
      cases h
      refine ⟨fields, schemas.map fun s => (s.name, s), rfl, ?_, rfl⟩
      rw [List.forall₂_map_right_iff]
      have hAll := readEach_eq_ok_iff.mp hSchemas
      rw [List.find?_eq_none] at hNames
      clear hSchemas h
      induction hAll with
      | nil => exact .nil
      | cons first _ ih =>
        obtain ⟨hFirst, hRest⟩ := List.forall_mem_cons.mp hNames
        have hName := (canonical_of_readSchema first).1
        refine .cons ⟨hName.symm, ?_, first⟩ (ih hRest)
        rw [← hName]
        simpa using hFirst
    · cases h
  · rintro ⟨fields, commands, rfl, hAll, rfl⟩
    apply Reading.bind_eq_ok_iff.mpr
    refine ⟨commands.map Prod.snd, ?_, ?_⟩
    · rw [readEach_eq_ok_iff, List.forall₂_map_right_iff]
      exact hAll.imp fun f e h => h.2.2
    · have hNames : (commands.map Prod.snd).find? (fun s => !isCommandName s.name) = none ∧
          (commands.map Prod.snd).map (fun s => (s.name, s)) = commands := by
        induction hAll with
        | nil => exact ⟨rfl, rfl⟩
        | @cons f e _ _ first _ ih =>
          obtain ⟨hField, hCommand, hRead⟩ := first
          have hName : e.2.name = f.1 := (canonical_of_readSchema hRead).1
          constructor
          · rw [List.map_cons, List.find?_cons_of_neg (by simp [hName, hCommand])]
            exact ih.1
          · rw [List.map_cons, List.map_cons, ih.2, hName, hField]
      rw [hNames.1]
      exact congrArg (fun l => Except.ok (Grammar.mk (Table.ofList l))) hNames.2

namespace Json

/-- Data that are accepted as a grammar. -/
def IsGrammar (data : Json) : Prop := ∃ g, Grammar.ofData data = .ok g

theorem isGrammar_iff {data : Json} :
    data.IsGrammar ↔ (Grammar.ofData data).toOption.isSome = true := by
  unfold IsGrammar
  cases Grammar.ofData data <;> simp [Except.toOption]

instance (data : Json) : Decidable data.IsGrammar := decidable_of_iff _ isGrammar_iff.symm

def fieldNames : Json → List String
  | .obj fields => fields.map Prod.fst
  | _ => []

/-- The fields of both. A field that is in both has its place in `a` and its value in `b`. -/
def merged (a b : Json) : Json :=
  match a, b with
  | .obj as, .obj bs => .obj ((Table.ofList as).merge (Table.ofList bs)).entries
  | _, _ => .obj []

/-- Data that declare a command: its schema is what the last field of that name says, and nothing
else in the data. -/
def Declares (data : Json) (name : String) (s : Schema) : Prop :=
  ∃ fields j, data = .obj fields ∧ lastValue? fields name = some j ∧
    readSchema .memory name j = .ok s

end Json

namespace Grammar

theorem ofData_eq_ok_iff {data : Json} {g : Grammar} :
    ofData data = .ok g ↔
      ∃ fields commands, data = .obj fields ∧
        List.Forall₂ (DeclaredBy .memory) fields commands ∧ g = ⟨Table.ofList commands⟩ :=
  ofReading_eq_ok_iff.trans readGrammar_eq_ok_iff

end Grammar

theorem mem_of_lastValue? {fields : List (String × Json)} {name : String} {j : Json}
    (h : lastValue? fields name = some j) : name ∈ fields.map Prod.fst := by
  by_contra absent
  rw [← List.mem_reverse, ← List.map_reverse] at absent
  rw [lastValue?, Table.lookup_of_notMem absent] at h
  cases h

/-- A name is found in both of two corresponding lists, with corresponding values, or in neither. -/
theorem lookup_of_declaredBy {origin : Origin} {fields : List (String × Json)}
    {commands : List (String × Schema)} (h : List.Forall₂ (DeclaredBy origin) fields commands)
    (name : String) :
    (∃ j s, fields.lookup name = some j ∧ commands.lookup name = some s ∧
      readSchema origin name j = .ok s) ∨
      fields.lookup name = none ∧ commands.lookup name = none := by
  induction h with
  | nil => exact .inr ⟨rfl, rfl⟩
  | @cons f e _ _ first _ ih =>
    obtain ⟨hName, -, hRead⟩ := first
    rw [List.lookup_cons, List.lookup_cons, ← hName]
    by_cases here : name = f.1
    · rw [here, beq_self_eq_true]
      exact .inl ⟨f.2, e.2, rfl, rfl, hRead⟩
    · rw [beq_false_of_ne here]
      exact ih

namespace Grammar

/-! ### What an extension adds -/

/-- What is found in a grammar that was read: what its data declare. -/
theorem cases_of_ofData {data : Json} {g : Grammar} (h : ofData data = .ok g) (name : String) :
    (∃ s, data.Declares name s ∧ g.find? name = some s) ∨
      ¬ data.Defines name ∧ g.find? name = none := by
  obtain ⟨fields, commands, rfl, hAll, rfl⟩ := ofData_eq_ok_iff.mp h
  have hFind : find? ⟨Table.ofList commands⟩ name = commands.reverse.lookup name :=
    Table.get?_ofList commands name
  rw [hFind]
  have hReverse := List.forall₂_reverse_iff.mpr hAll
  obtain ⟨j, s, hField, hCommand, hRead⟩ | ⟨hField, hCommand⟩ := lookup_of_declaredBy hReverse name
  · exact .inl ⟨s, ⟨fields, j, rfl, hField, hRead⟩, hCommand⟩
  · refine .inr ⟨?_, hCommand⟩
    rintro ⟨fields', hFields, mem⟩
    cases hFields
    obtain ⟨f, hf, hName⟩ := List.mem_map.mp mem
    rw [List.lookup_eq_none_iff] at hField
    have hOther := hField f (List.mem_reverse.mpr hf)
    simp [hName] at hOther

theorem names_of_ofData {data : Json} {g : Grammar} (h : ofData data = .ok g) (r : Grammar) :
    (r.merge g).names = (r.names ++ data.fieldNames).eraseDups := by
  obtain ⟨fields, commands, rfl, hAll, rfl⟩ := ofData_eq_ok_iff.mp h
  have hFields : fields.map Prod.fst = commands.map Prod.fst :=
    Table.map_fst_of_forall₂ (fun h => h.1) hAll
  rw [names, merge, Table.merge_ofList, Table.keys_foldl_put, Json.fieldNames, hFields]
  rfl

theorem extend_eq_ok_iff {g h : Grammar} {data : Json} :
    g.extend data = .ok h ↔ ∃ added, ofData data = .ok added ∧ h = g.merge added := by
  unfold extend
  cases ofData data with
  | error m => simp [Except.map]
  | ok added => simp [Except.map, eq_comm]

/-- What is wrong with data has nothing to do with the grammar that they were to extend. -/
theorem extend_eq_error_iff {g : Grammar} {data : Json} {m : Malformed} :
    g.extend data = .error m ↔ ofData data = .error m := by
  unfold extend
  cases ofData data <;> simp [Except.map]

theorem find?_merge_eq_or (g h : Grammar) (name : String) :
    (g.merge h).find? name = (h.find? name).or (g.find? name) :=
  Table.get?_merge g.schemas h.schemas name

theorem merge_assoc (g h k : Grammar) : (g.merge h).merge k = g.merge (h.merge k) :=
  congrArg Grammar.mk (Table.merge_assoc g.schemas h.schemas k.schemas)

/-- Merged data are read as the merged grammars. -/
theorem ofData_merged {a b : Json} {g h : Grammar} (first : ofData a = .ok g)
    (second : ofData b = .ok h) : ofData (a.merged b) = .ok (g.merge h) := by
  obtain ⟨as, commands, rfl, hFirst, rfl⟩ := ofData_eq_ok_iff.mp first
  obtain ⟨bs, others, rfl, hSecond, rfl⟩ := ofData_eq_ok_iff.mp second
  have hNames {f : String × Json} {e : String × Schema} (h : DeclaredBy .memory f e) :
      f.1 = e.1 := h.1
  have hAll : List.Forall₂ (DeclaredBy .memory)
      ((Table.ofList as).merge (Table.ofList bs)).entries
      ((Table.ofList commands).merge (Table.ofList others)).entries := by
    rw [Table.merge_ofList, Table.merge_ofList]
    exact Table.forall₂_foldl_put hNames hSecond (Table.forall₂_foldl_put hNames hFirst .nil)
  refine ofData_eq_ok_iff.mpr ⟨_, _, rfl, hAll, ?_⟩
  rw [Table.ofList_entries]
  rfl

/-! ### Extensions one after another -/

theorem extend_of_ofData {data : Json} {added : Grammar} (accepted : ofData data = .ok added)
    (g : Grammar) : g.extend data = .ok (g.merge added) :=
  extend_eq_ok_iff.mpr ⟨added, accepted, rfl⟩

/-- Extending by two data is extending once by the merged data. -/
theorem extend_merged {a b : Json} (first : a.IsGrammar) (second : b.IsGrammar) (g : Grammar) :
    ∃ h, (g.extend a >>= fun ga => ga.extend b) = .ok h ∧ g.extend (a.merged b) = .ok h := by
  obtain ⟨ga, hFirst⟩ := first
  obtain ⟨gb, hSecond⟩ := second
  refine ⟨g.merge (ga.merge gb), ?_, extend_of_ofData (ofData_merged hFirst hSecond) g⟩
  rw [extend_of_ofData hFirst, ← merge_assoc]
  exact extend_of_ofData hSecond (g.merge ga)

theorem ofData_extend {a b : Json} (first : a.IsGrammar) (second : b.IsGrammar) :
    ∃ h, (ofData a >>= fun ga => ga.extend b) = .ok h ∧ ofData (a.merged b) = .ok h := by
  obtain ⟨ga, hFirst⟩ := first
  obtain ⟨gb, hSecond⟩ := second
  refine ⟨ga.merge gb, ?_, ofData_merged hFirst hSecond⟩
  rw [hFirst]
  exact extend_of_ofData hSecond ga

def extendAll (g : Grammar) (datas : List Json) : Except Malformed Grammar :=
  datas.foldlM extend g

/-- A grammar has what the last of some extensions with a command of this name declares. -/
def HasLast (h : Grammar) (datas : List Json) (name : String) : Prop :=
  ∃ earlier data later s, datas = earlier ++ data :: later ∧ data.Declares name s ∧
    (∀ d ∈ later, ¬ d.Defines name) ∧ h.find? name = some s

/-- After extensions each name has its last schema, and the names stand in the order in which they
came first. -/
theorem extendAll_of_isGrammar {datas : List Json} (accepted : ∀ data ∈ datas, data.IsGrammar)
    (g : Grammar) :
    ∃ h, g.extendAll datas = .ok h ∧
      h.names = (g.names ++ datas.flatMap Json.fieldNames).eraseDups ∧
      ∀ name, h.HasLast datas name ∨
        (∀ data ∈ datas, ¬ data.Defines name) ∧ h.find? name = g.find? name := by
  induction datas generalizing g with
  | nil =>
    refine ⟨g, rfl, ?_, fun name => .inr ⟨List.forall_mem_nil _, rfl⟩⟩
    rw [List.flatMap_nil, List.append_nil]
    exact (eraseDups_eq_self g.schemas.nodup).symm
  | cons data datas ih =>
    obtain ⟨⟨added, hAdded⟩, hRest⟩ := List.forall_mem_cons.mp accepted
    obtain ⟨h, hExtended, hNames, hSchemas⟩ := ih hRest (g.merge added)
    refine ⟨h, ?_, ?_, ?_⟩
    · rw [extendAll, List.foldlM_cons, extend_of_ofData hAdded]
      exact hExtended
    · rw [hNames, names_of_ofData hAdded, eraseDups_eraseDups_append, List.append_assoc,
        List.flatMap_cons]
    · intro name
      obtain ⟨earlier, last, later, s, rfl, hLast⟩ | ⟨hNone, hFind⟩ := hSchemas name
      · exact .inl ⟨data :: earlier, last, later, s, rfl, hLast⟩
      · -- Nothing behind `data` has the command, so `data` has the last word on it.
        rw [find?_merge_eq_or] at hFind
        obtain ⟨s, hDeclared, hFound⟩ | ⟨hOther, hFound⟩ := cases_of_ofData hAdded name
        · rw [hFound, Option.some_or] at hFind
          exact .inl ⟨[], data, datas, s, rfl, hDeclared, hNone, hFind⟩
        · rw [hFound, Option.none_or] at hFind
          exact .inr ⟨List.forall_mem_cons.mpr ⟨hOther, hNone⟩, hFind⟩

/-! ### Grammars made so far -/

/-- An attempt to extend one of the grammars made so far. -/
structure Attempt where
  base : Nat
  data : Json

/-- What an attempt makes comes last. Data that are rejected make nothing. -/
def attempt (made : List Grammar) (a : Attempt) : List Grammar :=
  match made[a.base]? with
  | none => made
  | some g =>
    match g.extend a.data with
    | .ok h => made ++ [h]
    | .error _ => made

/-- An attempt leaves everything alone that has been made, and makes an extension if its data are
accepted. -/
theorem cases_of_attempt (made : List Grammar) (a : Attempt) :
    attempt made a = made ∨
      ∃ g h, made[a.base]? = some g ∧ g.extend a.data = .ok h ∧ attempt made a = made ++ [h] := by
  unfold attempt
  split
  · exact .inl rfl
  · rename_i g hBase
    split
    · rename_i h hExtended
      exact .inr ⟨g, h, hBase, hExtended, rfl⟩
    · exact .inl rfl

theorem attempt_of_rejected {a : Attempt} (rejected : ¬ a.data.IsGrammar) (made : List Grammar) :
    attempt made a = made := by
  obtain same | ⟨g, h, -, hExtended, -⟩ := cases_of_attempt made a
  · exact same
  · obtain ⟨added, hAdded, -⟩ := extend_eq_ok_iff.mp hExtended
    exact absurd ⟨added, hAdded⟩ rejected

/-- Data that are read extend whichever grammar an attempt is made on: with the commands of the data, and
with those of that grammar that are not among them. -/
theorem attempt_of_ofData {a : Attempt} {added base : Grammar} (accepted : ofData a.data = .ok added)
    {made : List Grammar} (hBase : made[a.base]? = some base) :
    ∃ h, base.extend a.data = .ok h ∧ attempt made a = made ++ [h] ∧
      ∀ name, h.find? name = (added.find? name).or (base.find? name) := by
  have hExtended := extend_of_ofData accepted base
  refine ⟨base.merge added, hExtended, ?_, find?_merge_eq_or base added⟩
  rw [attempt, hBase]
  dsimp only
  rw [hExtended]

theorem prefix_foldl_attempt (made : List Grammar) (attempts : List Attempt) :
    made <+: attempts.foldl attempt made := by
  induction attempts generalizing made with
  | nil => exact List.prefix_rfl
  | cons a attempts ih =>
    have hStep : made <+: attempt made a := by
      obtain same | ⟨g, h, -, -, added⟩ := cases_of_attempt made a
      · exact ⟨[], by rw [same, List.append_nil]⟩
      · exact ⟨[h], added.symm⟩
    exact hStep.trans (ih (attempt made a))

/-- **Extensions compose.** Extending by two data that are accepted is extending once by the merged
data, in which the second data win and fields keep their first place; and to read the first data and
extend by the second is to read the merged data. After any sequence of extensions each command has the
schema that the last extension with that command declares, or the schema that it had if there is none,
and the names stand in the order in which they came first. All grammars made before stay as they are,
whichever of them are extended. Data that are rejected change nothing: they are rejected by every
grammar for what is wrong with them by themselves. Other data extend every grammar, with what they
declare by themselves. -/
theorem extensions_compose (g : Grammar) :
    (∀ a b : Json, a.IsGrammar → b.IsGrammar →
      (∃ h, (g.extend a >>= fun ga => ga.extend b) = .ok h ∧ g.extend (a.merged b) = .ok h) ∧
      ∃ h, (ofData a >>= fun ga => ga.extend b) = .ok h ∧ ofData (a.merged b) = .ok h) ∧
    (∀ datas : List Json, (∀ data ∈ datas, data.IsGrammar) →
      ∃ h, g.extendAll datas = .ok h ∧
        h.names = (g.names ++ datas.flatMap Json.fieldNames).eraseDups ∧
        ∀ name, h.HasLast datas name ∨
          (∀ data ∈ datas, ¬ data.Defines name) ∧ h.find? name = g.find? name) ∧
    ∀ made : List Grammar,
      (∀ attempts : List Attempt, made <+: attempts.foldl attempt made) ∧
      ∀ a : Attempt, (¬ a.data.IsGrammar → attempt made a = made) ∧
        ∀ base, made[a.base]? = some base →
          (∀ m, base.extend a.data = .error m ↔ ofData a.data = .error m) ∧
          ∀ added, ofData a.data = .ok added → ∃ h, base.extend a.data = .ok h ∧
            attempt made a = made ++ [h] ∧
            ∀ name, h.find? name = (added.find? name).or (base.find? name) := by
  refine ⟨?_, ?_, ?_⟩
  · intro a b first second
    exact ⟨extend_merged first second g, ofData_extend first second⟩
  · intro datas accepted
    exact extendAll_of_isGrammar accepted g
  · intro made
    refine ⟨prefix_foldl_attempt made, fun a =>
      ⟨fun rejected => attempt_of_rejected rejected made, ?_⟩⟩
    intro base hBase
    exact ⟨fun m => extend_eq_error_iff, fun added accepted => attempt_of_ofData accepted hBase⟩

/-- The built-in grammar after two extensions that both have a command of it. -/
theorem extensions_compose_of_search :
    ∃ a b h, a = Json.obj [("PING", .obj []), ("SEARCH", .obj [("requires_input", .bool false)])] ∧
      b = Json.obj [("NOTE", .obj []), ("SEARCH", .obj [("description", .str "Look it up")])] ∧
      (builtin.extend a >>= fun g => g.extend b) = .ok h ∧ builtin.extend (a.merged b) = .ok h ∧
      h.names = (builtin.names ++ ["PING", "SEARCH", "NOTE", "SEARCH"]).eraseDups ∧
      h.HasLast [a, b] "SEARCH" := by
  generalize hFirst : Json.obj [("PING", .obj []),
    ("SEARCH", .obj [("requires_input", .bool false)])] = a
  generalize hSecond : Json.obj [("NOTE", .obj []),
    ("SEARCH", .obj [("description", .str "Look it up")])] = b
  have first : a.IsGrammar := by
    subst hFirst
    decide +kernel
  have second : b.IsGrammar := by
    subst hSecond
    decide +kernel
  obtain ⟨hTwo, hAll, -⟩ := extensions_compose builtin
  obtain ⟨⟨h, hExtended, hMerged⟩, -⟩ := hTwo a b first second
  obtain ⟨k, hRun, hNames, hSchemas⟩ := hAll [a, b] (by simp [first, second])
  obtain rfl : k = h := by
    simp only [extendAll, List.foldlM_cons, List.foldlM_nil, bind_pure] at hRun
    exact Except.ok.inj (hRun.symm.trans hExtended)
  refine ⟨a, b, k, rfl, rfl, hExtended, hMerged, ?_, ?_⟩
  · subst hFirst hSecond
    exact hNames
  · apply (hSchemas "SEARCH").resolve_right
    rintro ⟨hNone, -⟩
    apply hNone b (by simp)
    subst hSecond
    exact ⟨_, rfl, by decide⟩

end Grammar

end Directive
