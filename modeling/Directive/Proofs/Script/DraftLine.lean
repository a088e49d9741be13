import Directive.Proofs.Script.Draft
import Directive.Proofs.Table

/-!
# The line of a drafted command

* `allRead_arguments`: each argument is read as what it says;
* `commandLine_of_contents`: tokens that say what the arguments say make the line of the command.
-/

namespace Directive

open ParseContext (WrittenModifier)

/-- No quote stands directly behind an argument. -/
theorem noQuote_writeArguments (args : List WrittenArgument) {tail : List Char}
    (ends : EndsLine tail) : (writeArguments args ++ tail).head? ≠ some '"' := by
  cases args with
  | nil =>
    intro hQuote
    exact absurd (ends '"' hQuote) (by decide)
  | cons a args => simp [writeArguments]

theorem phraseEnd_writeModifiers (modifiers : List (String × String)) {tail : List Char}
    (ends : EndsLine tail) :
    PhraseEnd (writeArguments (modifiers.map modifierArgument) ++ tail) := by
  cases modifiers with
  | nil => exact .inl ends
  | cons m modifiers => exact .inr ⟨_, rfl⟩

theorem allRead_append {tail : List Char} {args others : List WrittenArgument}
    (h : ∀ before a after, args = before ++ a :: after →
      ReadsAs a.text (writeArguments (after ++ others) ++ tail) a.contents)
    (hOthers : AllRead tail others) : AllRead tail (args ++ others) := by
  induction args with
  | nil => exact hOthers
  | cons a args ih =>
    refine ⟨h [] a args rfl, ih fun before b after hSplit => ?_⟩
    exact h (a :: before) b after (by rw [hSplit]; rfl)

/-- Modifiers with different names all count. -/
theorem lastSettings_of_distinct {written : List WrittenModifier}
    (h : (written.map (·.name)).Nodup) :
    lastSettings written = written.map fun w => (w.name, w.setting) := by
  induction written with
  | nil => rfl
  | cons w written ih =>
    rw [List.map_cons, List.nodup_cons] at h
    have hOnce : written.any (·.name = w.name) = false := by
      rw [List.any_eq_false]
      intro v hv hSame
      exact h.1 (List.mem_map.mpr ⟨v, hv, by simpa using hSame⟩)
    rw [lastSettings, hOnce, if_neg Bool.false_ne_true, ih h.2, List.map_cons]

namespace CommandDraft

variable {g : Grammar} {step : Option Nat} {d : CommandDraft}

theorem allRead_modifiers (h : d.Fits g step) (tail : List Char) :
    AllRead tail (d.modifiers.map modifierArgument) := by
  rw [← List.append_nil (d.modifiers.map _)]
  refine allRead_append (fun before a after hSplit => ?_) trivial
  obtain ⟨m, hm, rfl⟩ : ∃ m ∈ d.modifiers, modifierArgument m = a := by
    rw [← List.mem_map, hSplit]
    simp
  have hRead := readsAs_modifier (h.keys m hm).keyName m.2.toList
    (writeArguments (after ++ []) ++ tail)
  simpa [modifierArgument] using hRead

theorem allRead_arguments (h : d.Fits g step) {tail : List Char} (ends : EndsLine tail) :
    AllRead tail d.arguments := by
  refine allRead_append (fun before a after hSplit => ?_) (allRead_modifiers h _)
  rcases hInput : d.input with _ | input
  · simp [inputArguments, hInput] at hSplit
  have hFits := h.inputFits input hInput
  cases input with
  | literal parts =>
    obtain ⟨p, hp, rfl⟩ : ∃ p ∈ parts, p.argument = a := by
      rw [← List.mem_map]
      simp_all [inputArguments, InputDraft.arguments]
    have hPart := hFits.2 p hp
    unfold Part.argument
    split
    · rename_i hBlock
      simpa using readsAs_blockQuote (hPart hBlock).1 _
    · simpa using readsAs_quote p.text.toList (noQuote_writeArguments _ ends)
  | reference phrase =>
    have hArguments : d.inputArguments = [⟨phrase.toList, [(.bareReference, phrase)]⟩] := by
      rw [inputArguments, hInput]
      rfl
    rw [hArguments] at hSplit
    obtain ⟨rfl, hLast⟩ : before = [] ∧ after = [] := by
      have := congrArg List.length hSplit
      simp only [List.length_nil, List.length_append, List.length_cons] at this
      constructor <;> exact List.length_eq_zero_iff.mp (by omega)
    subst hLast
    cases hSplit
    simpa using readsAs_phrase hFits.1 (phraseEnd_writeModifiers d.modifiers ends)

theorem inputTokens_of_contents {ts : List Token} (h : d.Fits g step)
    (hContents : ts.map Token.content = d.inputArguments.flatMap (·.contents)) :
    InputTokens step ts (d.input.map InputDraft.input) := by
  rcases hInput : d.input with _ | input
  · rw [inputArguments, hInput] at hContents
    rw [List.map_eq_nil_iff.mp hContents]
    exact .absent
  rw [inputArguments, hInput] at hContents
  have hFits := h.inputFits input hInput
  cases input with
  | literal parts =>
    have hParts : ts.map Token.content =
        parts.map fun p => (if p.block then .blockString else .quotedString, p.text) := by
      rw [hContents]
      change (parts.map Part.argument).flatMap _ = _
      rw [List.flatMap_map, List.map_eq_flatMap]
      congr 1
      funext p
      unfold Part.argument
      split <;> rfl
    have hTexts : ts.map Token.text = parts.map Part.text := by
      have := congrArg (List.map Prod.snd) hParts
      simpa [Function.comp_def, Token.content] using this
    have hKinds : ∀ t ∈ ts, t.kind.isString = true := by
      intro t ht
      have hContent := List.mem_map_of_mem (f := Token.content) ht
      rw [hParts] at hContent
      obtain ⟨p, -, hp⟩ := List.mem_map.mp hContent
      rw [show t.kind = _ from (congrArg Prod.fst hp).symm]
      dsimp only
      split <;> rfl
    have hNonempty : ts ≠ [] := by
      rintro rfl
      exact hFits.1 (List.map_eq_nil_iff.mp hTexts.symm)
    have hInputTokens : InputTokens step ts _ := .literal hNonempty hKinds
    rwa [hTexts] at hInputTokens
  | reference phrase =>
    obtain ⟨-, k, rfl⟩ := hFits
    obtain ⟨t, rfl, hReference⟩ := List.map_eq_singleton_iff.mp hContents
    have hText : t.text = phrase := congrArg Prod.snd hReference
    subst hText
    exact .reference (congrArg Prod.fst hReference)

/-- The modifiers of a line from what its tokens say. -/
theorem written_of_contents {modifiers : List (String × String)} {ts : List Token}
    (h : ts.map Token.content = (modifiers.map modifierArgument).flatMap (·.contents)) :
    ∃ written : List WrittenModifier, ts = written.flatMap (·.tokens) ∧
      (written.map fun w => (w.key.text, w.value.text)) = modifiers ∧
      ∀ w ∈ written, w.key.kind = .modifierKey ∧ w.value.kind = .modifierValue := by
  induction modifiers generalizing ts with
  | nil => exact ⟨[], List.map_eq_nil_iff.mp h, rfl, by simp⟩
  | cons m modifiers ih =>
    rcases ts with _ | ⟨key, _ | ⟨value, ts⟩⟩
    · cases h
    · simp [modifierArgument] at h
    · simp only [List.map_cons, List.flatMap_cons, modifierArgument, Token.content,
        List.cons_append, List.nil_append, List.cons.injEq, Prod.mk.injEq] at h
      obtain ⟨⟨hKey, hKeyText⟩, ⟨hValue, hValueText⟩, hMore⟩ := h
      obtain ⟨written, rfl, rfl, hKinds⟩ := ih hMore
      refine ⟨⟨key, value⟩ :: written, rfl, ?_, ?_⟩
      · rw [List.map_cons, hKeyText, hValueText]
      · intro w hw
        rcases List.mem_cons.mp hw with rfl | hw
        · exact ⟨hKey, hValue⟩
        · exact hKinds w hw

theorem commandLine_of_contents {header colon : Token} {ts : List Token} (h : d.Fits g step)
    (hName : header.kind = .commandName) (hText : header.text = d.name)
    (hColon : colon.kind = .colon)
    (hContents : ts.map Token.content = d.arguments.flatMap (·.contents)) :
    CommandLine g step (header :: colon :: ts)
      (d.invocation (Draft.slot g step.isSome d.name) header.line header.column) := by
  rw [arguments, List.flatMap_append] at hContents
  obtain ⟨inputTokens, others, rfl, hInput, hModifiers⟩ := List.map_eq_append_iff.mp hContents
  obtain ⟨written, rfl, hWritten, hKinds⟩ := written_of_contents hModifiers
  obtain ⟨schema, hKnown, hNeeded, hAccepted⟩ := h.allowed
  have hNames : ∀ w ∈ written, w.name = w.key.text := fun w hw =>
    (h.keys (w.key.text, w.value.text) (hWritten ▸ List.mem_map_of_mem hw)).canonicalKey_eq
  have hSettings : lastSettings written = d.modifiers.map fun m => (m.1, Setting.ofText m.2) := by
    rw [lastSettings_of_distinct, ← hWritten, List.map_map]
    · exact List.map_congr_left fun w hw => by rw [hNames w hw]; rfl
    · rw [List.map_congr_left hNames]
      simpa [← hWritten, Function.comp_def] using h.distinct
  have hTable : lastTable written =
      Table.ofList (d.modifiers.map fun m => (m.1, Setting.ofText m.2)) := by
    apply Table.ext
    rw [Table.entries_ofList (by simpa [Function.comp_def] using h.distinct)]
    exact hSettings
  have hSlot : Draft.slot g step.isSome d.name = step.map fun _ => schema.label := by
    cases step <;> simp [Draft.slot, hKnown]
  have hWellFormed : ∀ w ∈ written, w.WellFormed := fun w hw =>
    ⟨(hKinds w hw).1, (hKinds w hw).2,
      h.notBlank (w.key.text, w.value.text) (hWritten ▸ List.mem_map_of_mem hw)⟩
  have hLine := CommandLine.line hName (hText ▸ h.notChain) (hText ▸ hKnown) hColon
    (inputTokens_of_contents h hInput) (by simpa using hNeeded) hWellFormed
    (by rw [hSettings]; exact List.forall_mem_map.mpr hAccepted)
  rwa [hTable, hText, ← hSlot] at hLine

end CommandDraft

/-!
### Line ends
-/

open Text (Joined)

theorem joined_quote (text : List Char) : Joined (quote text) := by
  refine .of_line (noBreak_quote text) ?_
  · rw [quote, List.getLast?_cons, List.getLast?_append]
    simp

theorem joined_blockQuote {text : List Char} (h : ¬ ['\r', '\n'] <:+: text) :
    Joined (blockQuote text) := by
  refine ⟨?_, ?_⟩
  · have hQuotes : ∀ cs, Text.joinLineEnds ('"' :: '"' :: '"' :: cs) =
        '"' :: '"' :: '"' :: Text.joinLineEnds cs := fun _ => rfl
    rw [blockQuote, hQuotes, Text.joinLineEnds_append (.inr (by simp)),
      Text.joinLineEnds_of_no_pair h]
    rfl
  · simp [blockQuote, List.getLast?_cons, List.getLast?_append]

theorem joined_name {p : Char → Bool} {name : List Char} (h : isNameOf isNameStart p name = true)
    (hLine : p '\n' = false) (hReturn : p '\r' = false) : Joined name :=
  .of_line (not_mem_of_name h (by decide) hLine) fun hLast =>
    not_mem_of_name h (by decide) hReturn (List.mem_of_getLast? hLast)

theorem joined_writeArguments {args : List WrittenArgument} (h : ∀ a ∈ args, Joined a.text) :
    Joined (writeArguments args) := by
  refine .flatMap fun a ha => ?_
  have hBlank : Joined [' '] := .of_line (by simp) (by simp)
  exact hBlank.append (h a ha)

theorem joined_writeLine {name : List Char} {args : List WrittenArgument}
    (hName : isNameOf isNameStart isNameChar name = true) (h : ∀ a ∈ args, Joined a.text) :
    Joined (writeLine name args) := by
  have hColon : Joined [':'] := .of_line (by simp) (by simp)
  exact (joined_name hName (by decide) (by decide)).append (hColon.append (joined_writeArguments h))

theorem joined_writeModifier {key : List Char} (h : isNameOf isNameStart isKeyChar key = true)
    (raw : List Char) : Joined (writeModifier key raw) := by
  have hDashes : Joined ['-', '-'] := .of_line (by simp) (by simp)
  have hEquals : Joined ['='] := .of_line (by simp) (by simp)
  exact hDashes.append ((joined_name h (by decide) (by decide)).append
    (hEquals.append (joined_quote raw)))

theorem joined_phrase {text : List Char} (h : IsPhrase text) : Joined text := by
  refine .of_line h.oneLine fun hLast => ?_
  have := h.noBlankLast _ hLast
  simp [Text.isBlank] at this

theorem CommandDraft.joined_write {g : Grammar} {step : Option Nat} {d : CommandDraft}
    (h : d.Fits g step) : Joined d.write := by
  refine joined_writeLine h.identifier fun a ha => ?_
  rcases List.mem_append.mp ha with ha | ha
  · rcases hInput : d.input with _ | input
    · simp [inputArguments, hInput] at ha
    have hFits := h.inputFits input hInput
    rw [inputArguments, hInput] at ha
    cases input with
    | literal parts =>
      obtain ⟨p, hp, rfl⟩ := List.mem_map.mp ha
      unfold Part.argument
      split
      · rename_i hBlock
        exact joined_blockQuote (hFits.2 p hp hBlock).2
      · exact joined_quote _
    | reference phrase =>
      rw [List.mem_singleton.mp ha]
      exact joined_phrase hFits.1
  · obtain ⟨m, hm, rfl⟩ := List.mem_map.mp ha
    exact joined_writeModifier (h.keys m hm).keyName _

end Directive
