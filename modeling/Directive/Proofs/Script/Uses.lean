import Directive.Proofs.Grammar.Extension
import Directive.Proofs.Grammar.Same
import Directive.Proofs.Script.Concat
import Directive.Proofs.Script.Layout

/-!
# What a parse takes from its grammar

A parse that succeeds has looked up the commands of its script, and no others.

* `Script.commands`: the names of these;
* `Grammar.SameAt`: grammars that agree on a command;
* `takeHeading_command_same`, `takeHeading_chain_same`: such grammars read its line in the same way;
* `reads_same`: and so whole blocks;
* `ofText_same`: a script is the same by every grammar that agrees on its commands, an extension by
  other commands among them.
-/

namespace Directive

open Node (preorder preorderAll)
open ParseContext

/-- The command of every node of a script. -/
def Script.commands (s : Script) : List String := (preorderAll s.items).map Node.command

/-- If the first grammar has a command, then the other has the same. -/
def Grammar.SameAt (g g' : Grammar) (name : String) : Prop :=
  ∀ schema, g.find? name = some schema →
    ∃ schema', g'.find? name = some schema' ∧ schema.Same schema'

variable {g g' : Grammar} {lines : List String} {step : Option Nat}

theorem CommandLine.same {line : List Token} {i : Invocation} (h : CommandLine g step line i)
    (same : g.SameAt g' i.command) : CommandLine g' step line i := by
  cases h with
  | line name notChain known mark given needed wellFormed accepted =>
    obtain ⟨schema', known', hSame⟩ := same _ known
    rw [hSame.label_eq]
    refine .line name notChain known' mark given ?_ wellFormed ?_
    · intro requires
      exact needed (hSame.requiresInput.trans requires)
    · intro m hm
      exact hSame.accepts (accepted m hm)

theorem takeHeading_command_same {ts after : List Token} {i : Invocation}
    (h : takeHeading ⟨g, lines⟩ step ts = .ok (.command i, after))
    (same : g.SameAt g' i.command) : takeHeading ⟨g', lines⟩ step ts = .ok (.command i, after) := by
  obtain ⟨line, hLine, ⟨lineEnd, hEnd, rfl⟩ | ⟨hEnd, rfl⟩⟩ := commandLine_of_takeHeading h
  · exact takeHeading_of_commandLine (hLine.same same) hEnd
  · exact takeHeading_of_ended (hLine.same same) (takeLineEnd_of_eof hEnd)

theorem takeHeading_chain_same {ts after : List Token} {header : Token} {slot : Option String}
    (h : takeHeading ⟨g, lines⟩ step ts = .ok (.chain header slot, after))
    (same : g.SameAt g' chainCommand) :
    takeHeading ⟨g', lines⟩ step ts = .ok (.chain header slot, after) := by
  obtain ⟨colon, lineEnd, indent, schema, written, rfl, name, isChain, known, mark, wellFormed,
    accepted, ended, opened, rfl⟩ := chainLine_of_takeHeading h
  obtain ⟨schema', known', hSame⟩ := same _ known
  have hLine : ChainLine g' (header :: colon :: written.flatMap (·.tokens)) header schema' :=
    .line name isChain known' mark wellFormed fun m hm => hSame.accepts (accepted m hm)
  rw [hSame.label_eq]
  exact @takeHeading_of_chainLine ⟨g', lines⟩ _ _ _ _ _ _ _ hLine ended opened

/-- A block is read in the same way by every grammar that agrees on its commands. -/
theorem reads_same {ts rest : List Token} {nodes : List Node}
    (h : Reads ⟨g, lines⟩ step ts nodes rest)
    (same : ∀ name ∈ (preorderAll nodes).map Node.command, g.SameAt g' name) :
    Reads ⟨g', lines⟩ step ts nodes rest := by
  induction h with
  | nothing => exact .nothing
  | eof kind => exact .eof kind
  | newline kind _ ih => exact .newline kind (ih same)
  | dedent kind => exact .dedent kind
  | command heading _ ih =>
    simp only [preorderAll, preorder, List.cons_append, List.nil_append, List.map_cons,
      List.forall_mem_cons] at same
    obtain ⟨hHere, hMore⟩ := same
    exact .command (takeHeading_command_same heading hHere) (ih hMore)
  | chain heading _ nonempty _ ihInner ihMore =>
    simp only [preorderAll, preorder, List.cons_append, List.map_cons, List.map_append,
      List.forall_mem_cons, List.forall_mem_append] at same
    obtain ⟨hHere, hSteps, hMore⟩ := same
    exact .chain (takeHeading_chain_same heading hHere) (ihInner hSteps) nonempty (ihMore hMore)

theorem ofText_of_sameAt {text : String} {s : Script} (parsed : Script.ofText g text = .ok s)
    (same : ∀ name ∈ s.commands, g.SameAt g' name) : Script.ofText g' text = .ok s := by
  obtain ⟨ts, rest, hTokens, hReads⟩ := reads_of_ofText parsed
  exact ofText_of_reads hTokens (reads_same hReads same)

/-- **A parse depends only on the commands that its script uses.** A script is the same by every
grammar that has the same schemas for its commands; so it does not change when the grammar is extended
by other commands. -/
theorem ofText_same {text : String} {s : Script} (parsed : Script.ofText g text = .ok s) :
    (∀ g', (∀ name ∈ s.commands, g.SameAt g' name) → Script.ofText g' text = .ok s) ∧
      ∀ data h, g.extend data = .ok h → (∀ name ∈ s.commands, ¬ data.Defines name) →
        Script.ofText h text = .ok s := by
  constructor
  · intro g' same
    exact ofText_of_sameAt parsed same
  · intro data h extended others
    apply ofText_of_sameAt parsed
    intro name hName schema known
    refine ⟨schema, ?_, .refl schema⟩
    rw [Grammar.find?_extend extended (others name hName)]
    exact known

/-- A search in some places. -/
def searchIn (places : List String) : Schema where
  name := "SEARCH"
  modifiers := .ofList [("scope", .choice places)]

def placesGrammar (places : List String) : Grammar :=
  .ofSchemas [{ name := "CHAIN", requiresInput := false }, searchIn places]

theorem same_searchIn {places others : List String} (same : ∀ t, t ∈ places ↔ t ∈ others) :
    (searchIn places).Same (searchIn others) where
  name := rfl
  requiresInput := rfl
  modifiers key := by
    have hScope (places : List String) : (searchIn places).modifiers.get? key =
        if key == "scope" then some (.choice places) else none := by
      change List.lookup key [("scope", Domain.choice places)] = _
      rw [List.lookup_cons]
      cases key == "scope" <;> rfl
    rw [hScope, hScope]
    split
    · exact .some (.choice same)
    · exact .none
  slotLabel := rfl
  description := rfl

theorem sameAt_placesGrammar {places others : List String} (same : ∀ t, t ∈ places ↔ t ∈ others)
    {name : String} (h : name ∈ ["CHAIN", "SEARCH"]) :
    (placesGrammar places).SameAt (placesGrammar others) name := by
  intro schema known
  simp only [List.mem_cons, List.not_mem_nil, or_false] at h
  rcases h with rfl | rfl
  · exact ⟨schema, known, .refl schema⟩
  · have hSearch (places : List String) :
        (placesGrammar places).find? "SEARCH" = some (searchIn places) := rfl
    rw [hSearch] at known
    cases known
    exact ⟨_, hSearch others, same_searchIn same⟩

theorem ofText_same_of_more_commands :
    ∃ s h, Script.ofText (placesGrammar ["web", "docs"])
        "CHAIN:\n  SEARCH: \"tea\" --scope=web\n" = .ok s ∧
      s.commands = ["CHAIN", "SEARCH"] ∧
      (placesGrammar ["web", "docs"]).extend (.obj [("TAG", .obj [])]) = .ok h ∧
      h.names = ["CHAIN", "SEARCH", "TAG"] ∧
      Script.ofText h "CHAIN:\n  SEARCH: \"tea\" --scope=web\n" = .ok s ∧
      Script.ofText (placesGrammar ["docs", "web"])
        "CHAIN:\n  SEARCH: \"tea\" --scope=web\n" = .ok s := by
  generalize hText : "CHAIN:\n  SEARCH: \"tea\" --scope=web\n" = text
  have hCommands : ((Script.ofText (placesGrammar ["web", "docs"]) text).toOption.map
      Script.commands) = some ["CHAIN", "SEARCH"] := by
    subst hText
    decide +kernel
  have hNames : (((placesGrammar ["web", "docs"]).extend (.obj [("TAG", .obj [])])).toOption.map
      Grammar.names) = some ["CHAIN", "SEARCH", "TAG"] := by
    decide +kernel
  obtain ⟨s, hParsed, hUsed⟩ := Upshot.exists_of_map hCommands
  rcases hExtended : (placesGrammar ["web", "docs"]).extend (.obj [("TAG", .obj [])]) with e | h
  · rw [hExtended] at hNames
    cases hNames
  rw [hExtended] at hNames
  obtain ⟨hSame, hOthers⟩ := ofText_same hParsed
  refine ⟨s, h, hParsed, hUsed, rfl, Option.some.inj hNames, ?_, ?_⟩
  · apply hOthers _ h hExtended
    rw [hUsed]
    rintro name hName ⟨fields, hFields, hDefined⟩
    cases hFields
    have hTag : name = "TAG" := List.mem_singleton.mp hDefined
    rw [hTag] at hName
    exact absurd hName (by decide)
  · apply hSame
    rw [hUsed]
    intro name hName
    exact sameAt_placesGrammar (by simp [or_comm]) hName

end Directive
