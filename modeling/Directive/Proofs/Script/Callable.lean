import Directive.Proofs.Grammar.Admitted
import Directive.Proofs.Script.OneLine
import Directive.Proofs.Script.Revalidation
import Directive.Proofs.Token.Every

/-!
# Commands that can be called

A grammar checks the names of its commands, and the lexer looks for names in texts.

* `CommandDraft.fits_calling`: a command whose name is an identifier may be called with a text;
* `isName_of_ofText_invocation`: what a script calls has a name that the lexer knows;
* `callable_of_admits`: so a command can be called unless its name ends with a line feed.
-/

namespace Directive

theorem CommandDraft.fits_calling {g : Grammar} {name : String} {schema : Schema}
    {step : Option Nat} {modifiers : List (String × String)}
    (known : g.find? name = some schema) (identifier : IsIdentifier name)
    (notChain : name ≠ chainCommand)
    (accepted : ∀ m ∈ modifiers, schema.Accepts m.1 (.ofText m.2))
    (keys : ∀ m ∈ modifiers, IsCanonicalKey m.1) (distinct : (modifiers.map Prod.fst).Nodup)
    (notBlank : ∀ m ∈ modifiers, Text.isBlankText m.2 = false) (s : String) :
    (calling name s modifiers).Fits g step where
  identifier := identifier.name
  notChain := notChain
  allowed := ⟨schema, known, fun _ => Option.some_ne_none _, accepted⟩
  inputFits := by
    rintro _ ⟨⟩
    refine ⟨List.cons_ne_nil _ _, List.forall_mem_singleton.mpr ?_⟩
    intro hBlock
    cases hBlock
  keys := keys
  distinct := distinct
  notBlank := notBlank

theorem isName_of_ofText_invocation {g : Grammar} {text : String} {s : Script}
    (parsed : Script.ofText g text = .ok s) :
    ∀ i ∈ s.invocations, isNameOf isNameStart isNameChar i.command.toList = true := by
  intro i hi
  obtain ⟨ts, hTokens, hLines⟩ := line_of_ofText parsed
  obtain ⟨_, line, hLine, hWithin⟩ := hLines i hi
  obtain ⟨-, t, ht, hKind, hText, -⟩ := hLine.accepted
  rw [← hText]
  exact isName_of_ofText hTokens t (hWithin ht) hKind

/-- **A command that was admitted can be called, unless its name ends with a line feed.** The name of
a command other than a chain is an identifier, or an identifier and a line feed. In the first case the
command is called with any text in quotes: this makes the tokens of a name, a colon and a string, and a
script of the one command with that input. In the second case no text at all calls the command. -/
theorem callable_of_admits {g : Grammar} {name : String} (admitted : g.Admits name)
    (notChain : name ≠ chainCommand) :
    (IsIdentifier name ∨ ∃ front, IsIdentifier front ∧ name = front ++ "\n") ∧
    (IsIdentifier name → ∀ s,
      (∃ ts, Token.ofText (callText name s) = .ok ts ∧ ts.map Token.content =
        [(.commandName, name), (.colon, ":"), (.quotedString, s), (.newline, "\n"), (.eof, "")]) ∧
      Script.ofText g (callText name s) =
        .ok ⟨[.invocation ⟨name, some (.literal [s]), .empty, none, 1, 1⟩]⟩) ∧
    (¬ IsIdentifier name → ∀ text script, Script.ofText g text = .ok script →
      ∀ i ∈ script.invocations, i.command ≠ name) := by
  obtain ⟨schema, offered⟩ := admitted.offers
  have hName := isCommandName_iff.mp offered.isName
  refine ⟨hName, ?_, ?_⟩
  · intro identifier s
    have hFits : (CommandDraft.calling name s []).Fits g none :=
      CommandDraft.fits_calling offered.found identifier notChain (List.forall_mem_nil _)
        (List.forall_mem_nil _) List.nodup_nil (List.forall_mem_nil _) s
    have hWrite : String.ofList (CommandDraft.calling name s []).write = callText name s :=
      (CommandDraft.write_calling name s []).trans String.append_empty
    constructor
    · obtain ⟨colon, lineEnd, last, ts, hTokens, hColon, hContents, hEnd, hLast⟩ :=
        CommandDraft.tokens_of_write hFits
      rw [hWrite] at hTokens
      refine ⟨_, hTokens, ?_⟩
      simp only [List.map_cons, List.map_append, List.cons_append, hColon, hContents, hEnd, hLast]
      rfl
    · rw [← hWrite]
      exact CommandDraft.script_of_write hFits
  · rintro notIdentifier text script parsed i hi rfl
    obtain identifier | ⟨front, -, hBreak⟩ := hName
    · exact notIdentifier identifier
    · have hNamed := isName_of_ofText_invocation parsed i hi
      have hLine := @not_mem_of_name _ _ '\n' hNamed (by decide) (by decide)
      rw [hBreak] at hLine
      exact hLine (by simp)

/-- The data of two commands, one of which has a line feed in its name. -/
def brokenName : Json := .obj [("A\n", .obj []), ("TEA_2", .obj [])]

theorem callable_of_admits_of_brokenName :
    ∃ g, Grammar.ofData brokenName = .ok g ∧
      Script.ofText g (callText "TEA_2" "hot \"tea\"") =
        .ok ⟨[.invocation ⟨"TEA_2", some (.literal ["hot \"tea\""]), .empty, none, 1, 1⟩]⟩ ∧
      ∀ text script, Script.ofText g text = .ok script →
        ∀ i ∈ script.invocations, i.command ≠ "A\n" := by
  obtain ⟨g, hData⟩ : brokenName.IsGrammar := by decide +kernel
  have hNames : (Grammar.ofData brokenName).toOption.map Grammar.names = some ["A\n", "TEA_2"] := by
    decide +kernel
  rw [hData] at hNames
  have hKnown : g.names = ["A\n", "TEA_2"] := Option.some.inj hNames
  have hAdmits (name : String) (h : name ∈ g.names) : g.Admits name := .reached (.ofData hData) h
  obtain ⟨-, hCall, -⟩ :=
    callable_of_admits (hAdmits "TEA_2" (by simp [hKnown])) (by decide)
  obtain ⟨-, -, hNever⟩ := callable_of_admits (hAdmits "A\n" (by simp [hKnown])) (by decide)
  exact ⟨g, hData, (hCall (by decide) _).2, hNever (by decide)⟩

/-- A command is admitted under a name that is no identifier, and cannot be called. -/
theorem not_callable_brokenName :
    ∃ g f, Grammar.ofData brokenName = .ok g ∧ "A\n" ∈ g.names ∧ "A\n" ≠ chainCommand ∧
      ¬ IsIdentifier "A\n" ∧ Script.ofText g (callText "A\n" "x") = .error f ∧
      f.message = "Unknown command 'A'; did you mean 'A\n'?" := by
  have hFacts : (Grammar.ofData brokenName).toOption.map (fun g =>
      (decide ("A\n" ∈ g.names),
        ((Script.ofText g (callText "A\n" "x")).mapError Fault.message).map fun _ => ())) =
      some (true, .error "Unknown command 'A'; did you mean 'A\n'?") := by
    decide +kernel
  obtain ⟨g, hData⟩ : brokenName.IsGrammar := by decide +kernel
  rw [hData] at hFacts
  obtain ⟨hKnown, hFails⟩ := Prod.mk.inj (Option.some.inj hFacts)
  rcases hScript : Script.ofText g (callText "A\n" "x") with f | s | _
  · rw [hScript] at hFails
    exact ⟨g, f, hData, of_decide_eq_true hKnown, by decide, by decide, hScript,
      Upshot.error.inj hFails⟩
  · rw [hScript] at hFails
    cases hFails
  · rw [hScript] at hFails
    cases hFails

end Directive
