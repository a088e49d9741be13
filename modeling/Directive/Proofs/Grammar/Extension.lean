import Directive.Proofs.Grammar.RoundTrip

/-!
# What an extension leaves alone

* `Json.Defines`: the commands that data define;
* `Grammar.find?_extend`: an extension leaves every command alone that its data do not define.
-/

namespace Directive

/-- Data that have a field for a command. -/
def Json.Defines (data : Json) (name : String) : Prop :=
  ∃ fields, data = .obj fields ∧ name ∈ fields.map Prod.fst

/-- Every command that is read has a field of its own. -/
theorem defines_of_readGrammar {origin : Origin} {data : Json} {g : Grammar}
    (h : readGrammar origin data = .ok g) {name : String} (mem : name ∈ g.names) :
    data.Defines name := by
  unfold readGrammar at h
  split at h
  · rename_i fields
    obtain ⟨schemas, hSchemas, h⟩ := Reading.bind_eq_ok_iff.mp h
    split at h
    · cases h
    cases h
    obtain ⟨e, he, rfl⟩ := List.mem_map.mp mem
    obtain ⟨s, hs, rfl⟩ := List.mem_map.mp (Table.mem_of_mem_ofList he)
    obtain ⟨f, hf, hRead⟩ := exists_of_readEach hSchemas hs
    refine ⟨fields, rfl, ?_⟩
    rw [(canonical_of_readSchema hRead).1]
    exact List.mem_map_of_mem hf
  · cases h

namespace Grammar

theorem find?_merge {g h : Grammar} {name : String} (other : name ∉ h.names) :
    (g.merge h).find? name = g.find? name :=
  Table.get?_merge_of_notMem other

/-- A command that the data of an extension do not define stays as it is. -/
theorem find?_extend {g h : Grammar} {data : Json} (extended : g.extend data = .ok h)
    {name : String} (other : ¬ data.Defines name) : h.find? name = g.find? name := by
  unfold extend at extended
  rcases hRead : ofData data with e | added
  · rw [hRead] at extended
    cases extended
  · rw [hRead] at extended
    cases extended
    have hGrammar := ofReading_eq_ok_iff.mp hRead
    exact find?_merge fun mem => other (defines_of_readGrammar hGrammar mem)

end Grammar

end Directive
