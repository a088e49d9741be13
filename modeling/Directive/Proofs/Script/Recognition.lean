import Directive.Grammar.Builtin
import Directive.Proofs.Script.Line
import Directive.Proofs.Script.Reading
import Directive.Proofs.Token.Places

/-!
# The parser accepts its grammar

* `block_of_reads`: what a parse reads is a block, if the tokens are laid out in lines;
* `reads_of_block`: a parse reads each block;
* `ofTokens_eq_ok_iff_derivation`: so the parse of a text succeeds exactly on the derivations, with
  the tree of the derivation.
-/

namespace Directive

open ParseContext

variable {g : Grammar} {c : ParseContext}

theorem nextKind_of_head {t : Token} {ts : List Token} (h : t ∈ ts.head?) :
    nextKind ts = t.kind := by
  rw [nextKind, frontToken, List.headD_eq_head?_getD, h]
  rfl

theorem InputTokens.written {step : Option Nat} {ts : List Token} {input : Option Input}
    (h : InputTokens step ts input) : Written ts := by
  cases h with
  | absent => simp [Written]
  | literal _ strings =>
    intro t ht
    have := strings t ht
    revert this
    cases t.kind <;> simp [TokenKind.isString, TokenKind.isLayout]
  | reference kind => simp [Written, kind, TokenKind.isLayout]

theorem written_modifiers {ws : List WrittenModifier} (h : ∀ w ∈ ws, w.WellFormed) :
    Written (ws.flatMap (·.tokens)) := by
  intro t ht
  obtain ⟨w, hw, ht⟩ := List.mem_flatMap.mp ht
  obtain ⟨key, value, -⟩ := h w hw
  simp only [WrittenModifier.tokens, List.mem_cons, List.not_mem_nil, or_false] at ht
  rcases ht with rfl | rfl
  · simp [key, TokenKind.isLayout]
  · simp [value, TokenKind.isLayout]

/-- The name of a command and the colon behind it are on its line. -/
theorem written_heading {name mark : Token} {others : List Token} (hName : name.kind = .commandName)
    (hMark : mark.kind = .colon) (h : Written others) : Written (name :: mark :: others) := by
  refine List.forall_mem_cons.mpr ⟨?_, List.forall_mem_cons.mpr ⟨?_, h⟩⟩
  · simp [hName, TokenKind.isLayout]
  · simp [hMark, TokenKind.isLayout]

theorem CommandLine.written {step : Option Nat} {line : List Token} {i : Invocation}
    (h : CommandLine g step line i) : line ≠ [] ∧ Written line := by
  obtain @⟨header, colon, schema, inputTokens, input, modifiers, name, -, -, mark, given, -,
    wellFormed, -⟩ := h
  exact ⟨List.cons_ne_nil _ _, written_heading name mark
    (List.forall_mem_append.mpr ⟨given.written, written_modifiers wellFormed⟩)⟩

/-- What follows a block, and what of it is left when the block has been read. -/
inductive BlockEnd : Option Nat → Nat → List Token → List Token → Prop
  | input {last : Token} (kind : last.kind = .eof) : BlockEnd none 0 [last] [last]
  | chain {k depth : Nat} {dedent : Token} {rest : List Token} (kind : dedent.kind = .dedent)
      (laid : Laid false depth rest) : BlockEnd (some k) (depth + 1) (dedent :: rest) rest

theorem BlockEnd.of_next {step : Option Nat} {depth : Nat} {ending rest : List Token}
    (h : BlockEnd (step.map (· + 1)) depth ending rest) : BlockEnd step depth ending rest := by
  cases step with
  | none => exact h
  | some k =>
    cases h with
    | chain kind laid => exact .chain kind laid

/-- What `takeHeading` takes if it takes a command. -/
theorem commandLine_of_takeHeading {step : Option Nat} {ts after : List Token} {i : Invocation}
    (h : c.takeHeading step ts = .ok (.command i, after)) :
    ∃ line, CommandLine c.grammar step line i ∧
      ((∃ lineEnd, lineEnd.kind = .newline ∧ ts = line ++ lineEnd :: after) ∨
        nextKind after = .eof ∧ ts = line ++ after) := by
  unfold takeHeading at h
  split at h
  · cases h
  rename_i header schema rest hName
  obtain ⟨colon, rfl, hKind, hColon, hKnown⟩ := name_of_takeName hName
  dsimp only at h
  split at h
  · obtain ⟨hHeading, -⟩ := chainStart_of_takeChainStart h
    cases hHeading
  · rename_i hChain
    obtain ⟨i', line, hHeading, hLine⟩ := commandLine_of_takeCommand hKind hChain hColon hKnown h
    cases hHeading
    exact ⟨line, hLine⟩

/-- A line runs up to its end, so the input does not end in a command. -/
theorem commandLine_of_laid {step : Option Nat} {ts after : List Token} {i : Invocation}
    {opens : Bool} {depth : Nat} (laid : Laid opens depth ts)
    (h : c.takeHeading step ts = .ok (.command i, after)) :
    ∃ line lineEnd, CommandLine c.grammar step line i ∧ lineEnd.kind = .newline ∧
      ts = line ++ lineEnd :: after := by
  obtain ⟨line, hLine, ⟨lineEnd, hEnd, hTokens⟩ | ⟨hEof, rfl⟩⟩ := commandLine_of_takeHeading h
  · exact ⟨line, lineEnd, hLine, hEnd, hTokens⟩
  · obtain ⟨nonempty, written⟩ := hLine.written
    obtain ⟨lineEnd, _, rfl, hEnd, -⟩ := laid.of_written nonempty written fun t ht => by
      rw [← nextKind_of_head ht, hEof]
      rfl
    exact absurd (hEof.symm.trans hEnd) (by simp)

/-- What `takeHeading` takes if it takes the start of a chain. -/
theorem chainLine_of_takeHeading {step : Option Nat} {ts after : List Token} {header : Token}
    {slot : Option String} (h : c.takeHeading step ts = .ok (.chain header slot, after)) :
    ∃ (colon lineEnd indent : Token) (schema : Schema) (written : List WrittenModifier),
      ts = header :: colon :: (written.flatMap (·.tokens) ++ lineEnd :: indent :: after) ∧
      header.kind = .commandName ∧ header.text = chainCommand ∧
      c.grammar.find? chainCommand = some schema ∧ colon.kind = .colon ∧
      (∀ w ∈ written, w.WellFormed) ∧ (∀ m ∈ lastSettings written, schema.Accepts m.1 m.2) ∧
      lineEnd.kind = .newline ∧ indent.kind = .indent ∧
      slot = step.map fun _ => schema.label := by
  unfold takeHeading at h
  split at h
  · cases h
  rename_i name schema rest hName
  obtain ⟨colon, rfl, hKind, hColon, hKnown⟩ := name_of_takeName hName
  dsimp only at h
  split at h
  · rename_i hChain
    rw [hChain] at hKnown
    obtain ⟨hHeading, written, lineEnd, indent, hWellFormed, hAccepted, hEnd, hIndent, rfl⟩ :=
      chainStart_of_takeChainStart h
    cases hHeading
    exact ⟨colon, lineEnd, indent, schema, written, rfl, hKind, hChain, hKnown, hColon,
      hWellFormed, hAccepted, hEnd, hIndent, rfl⟩
  · rename_i hChain
    obtain ⟨i, line, hHeading, -⟩ := commandLine_of_takeCommand hKind hChain hColon hKnown h
    cases hHeading

/-- If the command that opens chains has no modifiers, its line has none. -/
theorem chainStart_of_takeHeading {step : Option Nat} {ts after : List Token} {header : Token}
    {slot : Option String}
    (hPlain : ∀ schema, c.grammar.find? chainCommand = some schema → schema.modifiers.entries = [])
    (h : c.takeHeading step ts = .ok (.chain header slot, after)) :
    ∃ colon lineEnd indent schema, ts = header :: colon :: lineEnd :: indent :: after ∧
      header.kind = .commandName ∧ header.text = chainCommand ∧
      c.grammar.find? chainCommand = some schema ∧ colon.kind = .colon ∧
      lineEnd.kind = .newline ∧ indent.kind = .indent ∧
      slot = step.map fun _ => schema.label := by
  obtain ⟨colon, lineEnd, indent, schema, written, rfl, hKind, hChain, hKnown, hColon, -,
    hAccepted, hEnd, hIndent, hSlot⟩ := chainLine_of_takeHeading h
  cases written_eq_nil (hPlain schema hKnown) hAccepted
  exact ⟨colon, lineEnd, indent, schema, rfl, hKind, hChain, hKnown, hColon, hEnd, hIndent, hSlot⟩

theorem block_of_reads {step : Option Nat} {ts rest : List Token} {nodes : List Node}
    {opens : Bool} {depth : Nat}
    (hPlain : ∀ schema, c.grammar.find? chainCommand = some schema → schema.modifiers.entries = [])
    (h : Reads c step ts nodes rest) (laid : Laid opens depth ts)
    (level : step = none ↔ depth = 0) :
    ∃ body ending, ts = body ++ ending ∧ Block c.grammar step body nodes ∧
      BlockEnd step depth ending rest := by
  induction h generalizing opens depth with
  | nothing => exact absurd rfl laid.ne_nil
  | eof kind =>
    obtain ⟨rfl, rfl⟩ := laid.of_eof kind
    rw [level.mpr rfl]
    exact ⟨[], _, rfl, .nil, .input kind⟩
  | newline kind => exact absurd kind laid.not_newline
  | dedent kind =>
    obtain ⟨outer, rfl, hRest⟩ := laid.of_dedent kind
    exact ⟨[], _, rfl, .nil, .chain kind hRest⟩
  | command heading _ ih =>
    obtain ⟨line, lineEnd, hLine, hEnd, rfl⟩ := commandLine_of_laid laid heading
    obtain ⟨nonempty, written⟩ := hLine.written
    have hRest := laid.behind_line nonempty written hEnd
    obtain ⟨body, ending, rfl, block, hEnding⟩ := ih hRest (by simpa using level)
    exact ⟨line ++ lineEnd :: body, ending, by simp, .command hLine hEnd block, hEnding.of_next⟩
  | @chain step _ _ _ _ _ _ _ _ heading _ nonempty _ ihInner ihMore =>
    obtain ⟨colon, lineEnd, indent, schema, rfl, hName, hChain, hKnown, hColon, hEnd, hIndent, rfl⟩ :=
      chainStart_of_takeHeading hPlain heading
    have hLine := written_heading hName hColon (List.forall_mem_nil _)
    have hBlock := @Laid.behind_line _ _ [_, colon] _ _ laid (by simp) hLine hEnd
    obtain ⟨inside, ending, rfl, inner, hInnerEnd⟩ :=
      ihInner (hBlock.of_indent hIndent) (by simp)
    cases hInnerEnd with
    | chain hDedent hAfter =>
      obtain ⟨body, ending, rfl, block, hEnding⟩ := ihMore hAfter (by simpa using level)
      exact ⟨_, ending, by simp, .chain hName hChain hKnown hColon hEnd hIndent hDedent nonempty
        inner block, hEnding.of_next⟩

/-- A block is read if what follows it ends a block. -/
theorem reads_of_block {step : Option Nat} {body ending rest : List Token} {nodes : List Node}
    (h : Block c.grammar step body nodes)
    (ends : ∀ other : Option Nat, other.isSome = step.isSome → Reads c other ending [] rest) :
    Reads c step (body ++ ending) nodes rest := by
  induction h generalizing ending rest with
  | nil => exact ends _ rfl
  | emptyLine kind _ ih => exact .newline kind (ih ends)
  | @command step line ts lineEnd i nodes first ended _ ih =>
    rw [List.append_assoc, List.cons_append]
    exact .command (takeHeading_of_commandLine first ended)
      (ih fun other h => ends other (by simpa using h))
  | @chain step header colon lineEnd indent dedent schema body ts steps nodes name isChain known
      mark ended opened closed nonempty _ _ ihInner ihRest =>
    have hInner : Reads c (some 0) (body ++ dedent :: (ts ++ ending)) steps (ts ++ ending) := by
      refine ihInner fun other h => ?_
      obtain ⟨k, rfl⟩ := Option.isSome_iff_exists.mp h
      exact .dedent closed
    have hRest := ihRest fun other h => ends other (by simpa using h)
    have hHeading : c.takeHeading step
        (header :: colon :: lineEnd :: indent :: (body ++ dedent :: (ts ++ ending))) = _ :=
      takeHeading_of_chainStart name isChain known mark ended opened
    simpa using Reads.chain hHeading hInner nonempty hRest

theorem ofTokens_of_derivation {lines : List String} {ts : List Token} {s : Script}
    (h : Derivation g ts s) : Script.ofTokens g lines ts = .ok s := by
  rw [Script.ofTokens_eq_ok_iff]
  obtain @⟨ts, last, items, block, ended⟩ := h
  exact ⟨_, reads_of_block block fun other _ => .eof ended⟩

theorem derivation_of_ofTokens {lines : List String} {ts : List Token} {s : Script}
    (hPlain : ∀ schema, g.find? chainCommand = some schema → schema.modifiers.entries = [])
    (laid : Laid true 0 ts) (h : Script.ofTokens g lines ts = .ok s) : Derivation g ts s := by
  rw [Script.ofTokens_eq_ok_iff] at h
  obtain ⟨rest, h⟩ := h
  obtain ⟨body, ending, rfl, block, hEnding⟩ := block_of_reads hPlain h laid (by simp)
  cases hEnding with
  | input kind => exact .script block kind

/-- On the tokens of a text, the parse gives exactly the trees that the grammar of scripts gives;
where that has none, it fails. -/
theorem ofTokens_eq_ok_iff_derivation {text : String} {ts : List Token}
    (tokens : Token.ofText text = .ok ts)
    (plain : ∀ schema, g.find? chainCommand = some schema → schema.modifiers.entries = [])
    (lines : List String) (s : Script) :
    Script.ofTokens g lines ts = .ok s ↔ Derivation g ts s :=
  ⟨derivation_of_ofTokens plain (laid_of_ofText tokens), ofTokens_of_derivation⟩

theorem plain_builtin (schema : Schema) (h : Grammar.builtin.find? chainCommand = some schema) :
    schema.modifiers.entries = [] := by
  have hAll : (Grammar.builtin.find? chainCommand).all (·.modifiers.entries = []) = true := by
    decide +kernel
  rw [h] at hAll
  simpa using hAll

theorem derivation_of_search_chain :
    ∃ ts s, Token.ofText
        "CHAIN:\n  SEARCH: \"tea\"\n  SUMMARIZE: search results --focus=taste\n" = .ok ts ∧
      Script.ofTokens .builtin [] ts = .ok s ∧ Derivation .builtin ts s := by
  generalize hText : "CHAIN:\n  SEARCH: \"tea\"\n  SUMMARIZE: search results --focus=taste\n" = text
  have hParsed : ((Token.ofText text).toOption.bind fun ts =>
      (Script.ofTokens .builtin [] ts).toOption).isSome = true := by
    subst hText
    decide +kernel
  obtain ⟨s, hSome⟩ := Option.isSome_iff_exists.mp hParsed
  obtain ⟨ts, hTokens, hRest⟩ := Upshot.exists_of_bind hSome
  rcases hScript : Script.ofTokens .builtin [] ts with e | s'
  · rw [hScript] at hRest
    cases hRest
  · exact ⟨ts, s', hTokens, hScript,
      (ofTokens_eq_ok_iff_derivation hTokens plain_builtin [] s').mp hScript⟩

end Directive
