import Directive.Proofs.Script.Derivation
import Directive.Proofs.Table

/-!
# What a parse takes from a line

For each part of a line, what is taken if the parse of it succeeds, and that it succeeds on what
the grammar of scripts allows.

* `entries_settings`: of repeated modifiers the last one counts;
* `inputTokens_of_takeInput`, `takeInput_of_inputTokens` and so on: one part each;
* `commandLine_of_takeCommand`, `takeHeading_of_commandLine`: the line of a command;
* `CommandFront`, `takeHeading_of_front`: the line of a command up to its modifiers;
* `ChainLine`, `chainStart_of_takeChainStart`, `takeHeading_of_chainLine`: the line that opens a chain.
-/

namespace Directive

open ParseContext (WrittenModifier)

theorem ok_of_bind {ε α β : Type} {x : Except ε α} {f : α → Except ε β} {b : β}
    (h : x >>= f = .ok b) : ∃ a, x = .ok a ∧ f a = .ok b := by
  cases x with
  | error e => cases h
  | ok a => exact ⟨a, rfl, h⟩

theorem entries_foldl_move (ws : List WrittenModifier) (t : Table Setting) :
    (ws.foldl (fun t w => t.move w.name w.setting) t).entries =
      t.entries.filter (fun e => !ws.any (·.name = e.1)) ++ lastSettings ws := by
  induction ws generalizing t with
  | nil =>
    rw [List.filter_eq_self.mpr (by simp)]
    exact (List.append_nil _).symm
  | cons w ws ih =>
    have hKept : t.entries.filter (fun e => !ws.any (·.name = e.1) && decide (e.1 ≠ w.name)) =
        t.entries.filter (fun e => !(w :: ws).any (·.name = e.1)) := by
      apply List.filter_congr
      intro e _
      by_cases same : e.1 = w.name
      · simp [same]
      · simp [same, Ne.symm same]
    rw [List.foldl_cons, ih, Table.entries_move, List.filter_append, List.filter_filter, hKept,
      List.append_assoc, lastSettings]
    by_cases again : ws.any (·.name = w.name) = true
    · simp [again]
    · simp [again]

theorem entries_settings (ws : List WrittenModifier) :
    (ParseContext.settings ws).entries = lastSettings ws := by
  exact entries_foldl_move ws .empty

theorem settings_eq_lastTable (ws : List WrittenModifier) :
    ParseContext.settings ws = lastTable ws :=
  Table.ext (entries_settings ws)

namespace Schema

variable (s : Schema)

theorem objection?_eq_none_iff {key : String} {value : Setting} :
    s.objection? key value = none ↔ s.Accepts key value := by
  unfold objection? Accepts
  cases s.modifiers.get? key <;> simp

theorem firstObjection?_eq_none_iff {placeOf : String → Place} {ms : List (String × Setting)} :
    s.firstObjection? placeOf ms = none ↔ ∀ m ∈ ms, s.Accepts m.1 m.2 := by
  induction ms with
  | nil => simp [firstObjection?]
  | cons m ms ih =>
    obtain ⟨key, value⟩ := m
    rw [List.forall_mem_cons, ← ih, ← s.objection?_eq_none_iff, firstObjection?]
    cases s.objection? key value <;> simp

theorem validateAll_eq_ok_iff {t t' : Table Setting} {placeOf : String → Place} :
    s.validateAll t placeOf = .ok t' ↔ t' = t ∧ ∀ m ∈ t.entries, s.Accepts m.1 m.2 := by
  rw [← @firstObjection?_eq_none_iff s placeOf, validateAll]
  cases s.firstObjection? placeOf t.entries <;> simp [eq_comm]

end Schema

/-- The line that opens a chain, without the token that ends it. -/
inductive ChainLine (g : Grammar) : List Token → Token → Schema → Prop
  | line {header colon : Token} {schema : Schema} {written : List WrittenModifier}
      (name : header.kind = .commandName) (isChain : header.text = chainCommand)
      (known : g.find? chainCommand = some schema) (mark : colon.kind = .colon)
      (wellFormed : ∀ w ∈ written, w.WellFormed)
      (accepted : ∀ m ∈ lastSettings written, schema.Accepts m.1 m.2) :
      ChainLine g (header :: colon :: written.flatMap (·.tokens)) header schema

/-- The line of a command up to its modifiers, and the command that it makes without any. -/
inductive CommandFront (g : Grammar) (step : Option Nat) :
    List Token → Schema → Invocation → Prop
  | front {header colon : Token} {schema : Schema} {inputTokens : List Token}
      {input : Option Input} (name : header.kind = .commandName)
      (notChain : header.text ≠ chainCommand) (known : g.find? header.text = some schema)
      (mark : colon.kind = .colon) (given : InputTokens step inputTokens input)
      (needed : schema.requiresInput = true → input ≠ none) :
      CommandFront g step (header :: colon :: inputTokens) schema
        ⟨header.text, input, .empty, step.map fun _ => schema.label, header.line, header.column⟩

namespace ParseContext

variable {c : ParseContext}

theorem takeStrings_spec (ts : List Token) :
    ∃ strings, ts = strings ++ (takeStrings ts).2 ∧ (takeStrings ts).1 = strings.map Token.text ∧
      ∀ t ∈ strings, t.kind.isString = true := by
  induction ts with
  | nil => exact ⟨[], rfl, rfl, by simp⟩
  | cons t ts ih =>
    obtain ⟨strings, hSplit, hTexts, hKinds⟩ := ih
    unfold takeStrings
    split
    · rename_i hString
      refine ⟨t :: strings, ?_, ?_, ?_⟩
      · rw [List.cons_append, ← hSplit]
      · rw [List.map_cons, ← hTexts]
      · simpa [hString] using hKinds
    · exact ⟨[], rfl, rfl, by simp⟩

theorem takeStrings_append {strings rest : List Token}
    (hStrings : ∀ t ∈ strings, t.kind.isString = true) (hRest : (nextKind rest).isString = false) :
    takeStrings (strings ++ rest) = (strings.map Token.text, rest) := by
  induction strings with
  | nil =>
    cases rest with
    | nil => rfl
    | cons t ts =>
      have hFirst : t.kind.isString = false := hRest
      simp [takeStrings, hFirst]
  | cons t strings ih =>
    have hFirst := hStrings t (by simp)
    rw [List.cons_append, takeStrings, if_pos hFirst, ih fun u hu => hStrings u (by simp [hu])]
    rfl

theorem inputTokens_of_takeInput {step : Option Nat} {ts rest : List Token} {input : Option Input}
    (h : c.takeInput step ts = .ok (input, rest)) :
    ∃ taken, ts = taken ++ rest ∧ InputTokens step taken input := by
  obtain ⟨strings, hSplit, hTexts, hKinds⟩ := takeStrings_spec ts
  unfold takeInput stop at h
  split at h
  · split at h
    · split at h
      · rename_i hReference
        rcases step with _ | _ | k
        · cases h
        · cases h
        · cases h
          exact ⟨[_], rfl, .reference hReference⟩
      · cases h
        exact ⟨[], rfl, .absent⟩
    · cases h
      exact ⟨[], rfl, .absent⟩
  · rename_i parts after hNonempty hTaken
    dsimp only at h
    split at h
    · cases h
    · cases h
      rw [hTaken] at hSplit hTexts
      subst hTexts
      refine ⟨strings, hSplit, .literal ?_ hKinds⟩
      rintro rfl
      exact hNonempty rfl

theorem takeInput_of_inputTokens {step : Option Nat} {taken rest : List Token}
    {input : Option Input} (h : InputTokens step taken input)
    (hString : (nextKind rest).isString = false) (hReference : nextKind rest ≠ .bareReference) :
    c.takeInput step (taken ++ rest) = .ok (input, rest) := by
  cases h with
  | absent =>
    have hStrings : takeStrings rest = ([], rest) :=
      @takeStrings_append [] _ (by simp) hString
    rw [List.nil_append, takeInput.eq_def, hStrings]
    cases rest with
    | nil => rfl
    | cons t ts => exact if_neg hReference
  | literal nonempty strings =>
    rw [takeInput.eq_def, takeStrings_append strings hString]
    cases taken with
    | nil => exact absurd rfl nonempty
    | cons t ts => exact if_neg hReference
  | @reference k t kind =>
    have hStrings : takeStrings ([t] ++ rest) = ([], t :: rest) :=
      @takeStrings_append [] _ (by simp)
        (by simp [nextKind, frontToken, kind, TokenKind.isString])
    rw [takeInput.eq_def, hStrings]
    exact if_pos kind

theorem written_of_takeWritten {ts rest : List Token} {written : List WrittenModifier}
    (h : c.takeWritten ts = .ok (written, rest)) :
    ts = written.flatMap (·.tokens) ++ rest ∧ ∀ w ∈ written, w.WellFormed := by
  fun_induction takeWritten c ts generalizing written rest with
  | case1 => cases h; simp
  | case2 => cases h
  | case3 key hKey value ts hValue hBlank more after hMore ih =>
    cases h
    obtain ⟨hSplit, hWellFormed⟩ := ih hMore
    refine ⟨?_, ?_⟩
    · rw [List.flatMap_cons, List.append_assoc, ← hSplit]
      rfl
    · rintro w (_ | ⟨_, hw⟩)
      · exact ⟨hKey, hValue, by simpa using hBlank⟩
      · exact hWellFormed w hw
  | case4 => cases h
  | case5 => cases h
  | case6 => cases h
  | case7 => cases h; simp

/-- Modifiers that have values are taken, whatever comes of the rest. -/
theorem takeWritten_append {written : List WrittenModifier}
    (wellFormed : ∀ w ∈ written, w.WellFormed) (rest : List Token) :
    c.takeWritten (written.flatMap (·.tokens) ++ rest) =
      (c.takeWritten rest).map fun p => (written ++ p.1, p.2) := by
  induction written with
  | nil =>
    rw [List.flatMap_nil, List.nil_append]
    rcases c.takeWritten rest with e | p <;> rfl
  | cons w written ih =>
    obtain ⟨hKey, hValue, hBlank⟩ := wellFormed w List.mem_cons_self
    have hMore := ih fun v hv => wellFormed v (List.mem_cons_of_mem w hv)
    rw [List.flatMap_cons, List.append_assoc]
    change c.takeWritten (w.key :: w.value :: (written.flatMap (·.tokens) ++ rest)) = _
    rw [takeWritten.eq_def]
    dsimp only
    rw [if_pos hKey, if_pos hValue, hBlank, if_neg Bool.false_ne_true, hMore]
    rcases c.takeWritten rest with e | p <;> rfl

theorem takeWritten_of_written {written : List WrittenModifier} {rest : List Token}
    (hWritten : ∀ w ∈ written, w.WellFormed) (hRest : nextKind rest ≠ .modifierKey) :
    c.takeWritten (written.flatMap (·.tokens) ++ rest) = .ok (written, rest) := by
  have hNone : c.takeWritten rest = .ok ([], rest) := by
    cases rest with
    | nil => rfl
    | cons t ts =>
      rw [takeWritten.eq_def]
      exact if_neg hRest
  rw [takeWritten_append hWritten, hNone, Except.map, List.append_nil]

theorem written_of_takeModifiers {schema : Schema} {command : String} {ts rest : List Token}
    {modifiers : Table Setting} (h : c.takeModifiers schema command ts = .ok (modifiers, rest)) :
    ∃ written : List WrittenModifier, ts = written.flatMap (·.tokens) ++ rest ∧
      (∀ w ∈ written, w.WellFormed) ∧ (∀ m ∈ lastSettings written, schema.Accepts m.1 m.2) ∧
      modifiers = lastTable written := by
  unfold takeModifiers at h
  split at h
  · cases h
  · rename_i written after hWritten
    split at h
    · rename_i accepted hAccepted
      cases h
      rw [settings_eq_lastTable, schema.validateAll_eq_ok_iff] at hAccepted
      obtain ⟨hSplit, hWellFormed⟩ := written_of_takeWritten hWritten
      exact ⟨written, hSplit, hWellFormed, hAccepted.2, hAccepted.1⟩
    · cases h

theorem takeModifiers_of_written {schema : Schema} {command : String} {rest : List Token}
    {written : List WrittenModifier} (hWritten : ∀ w ∈ written, w.WellFormed)
    (hAccepted : ∀ m ∈ lastSettings written, schema.Accepts m.1 m.2)
    (hRest : nextKind rest ≠ .modifierKey) :
    c.takeModifiers schema command (written.flatMap (·.tokens) ++ rest) =
      .ok (lastTable written, rest) := by
  have hValid : schema.validateAll (settings written) (c.placeOfKey command written) =
      .ok (lastTable written) := by
    rw [settings_eq_lastTable, schema.validateAll_eq_ok_iff]
    exact ⟨rfl, hAccepted⟩
  rw [takeModifiers, takeWritten_of_written hWritten hRest]
  dsimp only
  rw [hValid]

/-- A line ends with a token of its own, or with the input. -/
theorem cases_of_takeLineEnd {command : String} {ts rest : List Token}
    (h : c.takeLineEnd command ts = .ok rest) :
    (∃ lineEnd, lineEnd.kind = .newline ∧ ts = lineEnd :: rest) ∨
      nextKind ts = .eof ∧ rest = ts := by
  unfold takeLineEnd stop at h
  split at h
  · rename_i hKind
    cases ts with
    | nil => cases hKind
    | cons t ts =>
      cases h
      exact .inl ⟨t, hKind, rfl⟩
  · rename_i hKind
    cases h
    exact .inr ⟨hKind, rfl⟩
  · cases h

theorem takeLineEnd_of_newline {command : String} {lineEnd : Token} {rest : List Token}
    (h : lineEnd.kind = .newline) : c.takeLineEnd command (lineEnd :: rest) = .ok rest := by
  unfold takeLineEnd
  rw [show nextKind (lineEnd :: rest) = .newline from h]
  rfl

theorem takeLineEnd_of_eof {command : String} {rest : List Token} (h : nextKind rest = .eof) :
    c.takeLineEnd command rest = .ok rest := by
  unfold takeLineEnd
  rw [h]

/-- A line that begins with no name of a command. -/
theorem takeName_of_other {ts : List Token} (h : nextKind ts ≠ .commandName) :
    c.takeName ts = c.stop (.noHeader (frontToken ts).describe) (frontToken ts) ts := if_neg h

/-- A line that begins with the name of no command of the grammar. -/
theorem takeName_of_unknown {ts : List Token} (h : nextKind ts = .commandName)
    (unknown : c.grammar.find? (frontToken ts).text = none) :
    c.takeName ts =
      c.stop (.unknownCommand (frontToken ts).text (c.suggest (frontToken ts).text)) (frontToken ts)
        (ts.drop 1) := by
  unfold takeName
  dsimp only
  rw [unknown]
  exact if_pos h

theorem takeName_of_known {ts : List Token} {schema : Schema} (h : nextKind ts = .commandName)
    (known : c.grammar.find? (frontToken ts).text = some schema) :
    c.takeName ts =
      if nextKind (ts.drop 1) = .colon then .ok ((frontToken ts, schema), (ts.drop 1).drop 1)
      else c.stop (.noColon (frontToken ts).text) (frontToken (ts.drop 1)) (ts.drop 1) := by
  unfold takeName
  dsimp only
  rw [known]
  exact if_pos h

theorem name_of_takeName {header : Token} {schema : Schema} {ts rest : List Token}
    (h : c.takeName ts = .ok ((header, schema), rest)) :
    ∃ colon, ts = header :: colon :: rest ∧ header.kind = .commandName ∧ colon.kind = .colon ∧
      c.grammar.find? header.text = some schema := by
  unfold takeName stop at h
  dsimp only at h
  split at h
  · rename_i hName
    split at h
    · cases h
    · rename_i found hKnown
      split at h
      · rename_i hColon
        rcases ts with _ | ⟨t, _ | ⟨colon, ts⟩⟩
        · cases hName
        · cases hColon
        · cases h
          exact ⟨colon, rfl, hName, hColon, hKnown⟩
      · cases h
  · cases h

theorem takeName_of_name {header colon : Token} {schema : Schema} {rest : List Token}
    (hName : header.kind = .commandName) (hColon : colon.kind = .colon)
    (hKnown : c.grammar.find? header.text = some schema) :
    c.takeName (header :: colon :: rest) = .ok ((header, schema), rest) := by
  have hNext : nextKind (colon :: rest) = .colon := hColon
  simp [takeName, frontToken, hName, hKnown, hNext]

/-- The line of a command ends with a token of its own, or with the input. -/
theorem commandLine_of_takeCommand {header colon : Token} {schema : Schema} {step : Option Nat}
    {ts after : List Token} {heading : Heading} (hName : header.kind = .commandName)
    (hNotChain : header.text ≠ chainCommand) (hColon : colon.kind = .colon)
    (hKnown : c.grammar.find? header.text = some schema)
    (h : c.takeCommand header schema (step.map fun _ => schema.label) step ts =
      .ok (heading, after)) :
    ∃ i line, heading = .command i ∧ CommandLine c.grammar step line i ∧
      ((∃ lineEnd, lineEnd.kind = .newline ∧ header :: colon :: ts = line ++ lineEnd :: after) ∨
        nextKind after = .eof ∧ header :: colon :: ts = line ++ after) := by
  unfold takeCommand at h
  obtain ⟨⟨input, ts₂⟩, hInput, h⟩ := ok_of_bind h
  dsimp only at h
  split at h
  · cases h
  rename_i hNeeded
  obtain ⟨⟨modifiers, ts₃⟩, hModifiers, h⟩ := ok_of_bind h
  obtain ⟨ts₄, hEnd, h⟩ := ok_of_bind h
  cases h
  obtain ⟨taken, rfl, hTaken⟩ := inputTokens_of_takeInput hInput
  obtain ⟨written, rfl, hWellFormed, hAccepted, rfl⟩ := written_of_takeModifiers hModifiers
  have hPresent : schema.requiresInput = true → input ≠ none := by
    rintro hRequires rfl
    simp [hRequires] at hNeeded
  refine ⟨_, _, rfl, .line hName hNotChain hKnown hColon hTaken hPresent hWellFormed hAccepted, ?_⟩
  rcases cases_of_takeLineEnd hEnd with ⟨lineEnd, hKind, rfl⟩ | ⟨hKind, rfl⟩
  · exact .inl ⟨lineEnd, hKind, by simp⟩
  · exact .inr ⟨hKind, by simp⟩

/-- The line that opens a chain ends with a token of its own, and an indent follows. -/
theorem chainStart_of_takeChainStart {header : Token} {schema : Schema} {slot : Option String}
    {ts after : List Token} {heading : Heading}
    (h : c.takeChainStart header schema slot ts = .ok (heading, after)) :
    heading = .chain header slot ∧ ∃ (written : List WrittenModifier) (lineEnd indent : Token),
      (∀ w ∈ written, w.WellFormed) ∧ (∀ m ∈ lastSettings written, schema.Accepts m.1 m.2) ∧
      lineEnd.kind = .newline ∧ indent.kind = .indent ∧
      ts = written.flatMap (·.tokens) ++ lineEnd :: indent :: after := by
  unfold takeChainStart at h
  dsimp only at h
  split at h
  · cases h
  obtain ⟨⟨modifiers, ts₂⟩, hModifiers, h⟩ := ok_of_bind h
  obtain ⟨ts₃, hEnd, h⟩ := ok_of_bind h
  split at h
  · rename_i hIndent
    cases h
    obtain ⟨written, rfl, hWellFormed, hAccepted, rfl⟩ := written_of_takeModifiers hModifiers
    rcases ts₃ with _ | ⟨indent, ts₃⟩
    · cases hIndent
    refine ⟨rfl, written, ?_⟩
    rcases cases_of_takeLineEnd hEnd with ⟨lineEnd, hKind, rfl⟩ | ⟨hKind, rfl⟩
    · exact ⟨lineEnd, indent, hWellFormed, hAccepted, hKind, hIndent, rfl⟩
    · rw [hIndent] at hKind
      cases hKind
  · cases h

/-- A command that has no modifiers accepts none. -/
theorem written_eq_nil {schema : Schema} (hPlain : schema.modifiers.entries = [])
    {written : List WrittenModifier}
    (hAccepted : ∀ m ∈ lastSettings written, schema.Accepts m.1 m.2) : written = [] := by
  cases written with
  | nil => rfl
  | cons w ws =>
    obtain ⟨m, hm, -⟩ := List.mem_map.mp (mem_keys_lastSettings.mpr ⟨w, List.mem_cons_self, rfl⟩)
    obtain ⟨d, hd, -⟩ := hAccepted m hm
    rw [Table.get?, hPlain] at hd
    cases hd

/-- Behind the input of a command come its modifiers, and then its line ends. -/
theorem takeHeading_of_front {step : Option Nat} {front rest : List Token} {schema : Schema}
    {i : Invocation} (h : CommandFront c.grammar step front schema i)
    (hString : (nextKind rest).isString = false) (hReference : nextKind rest ≠ .bareReference) :
    c.takeHeading step (front ++ rest) =
      c.takeModifiers schema i.command rest >>= fun p =>
        c.takeLineEnd i.command p.2 >>= fun after =>
          .ok (.command { i with modifiers := p.1 }, after) := by
  obtain @⟨header, colon, schema, inputTokens, input, name, notChain, known, mark, given, needed⟩ := h
  have hInput := @takeInput_of_inputTokens c _ _ _ _ given hString hReference
  have hMissing : (input.isNone && schema.requiresInput) = false := by
    cases hRequires : schema.requiresInput
    · simp
    · simpa [Option.ne_none_iff_isSome] using needed hRequires
  rw [List.cons_append, List.cons_append, takeHeading, takeName_of_name name mark known]
  dsimp only
  rw [if_neg notChain, takeCommand, hInput]
  change (if _ then _ else _) = _
  rw [hMissing, if_neg Bool.false_ne_true]

theorem takeHeading_of_ended {step : Option Nat} {line rest after : List Token} {i : Invocation}
    (h : CommandLine c.grammar step line i) (ended : c.takeLineEnd i.command rest = .ok after) :
    c.takeHeading step (line ++ rest) = .ok (.command i, after) := by
  obtain @⟨header, colon, schema, inputTokens, input, written, hName, hNotChain, hKnown, hColon,
    hInput, hNeeded, hWellFormed, hAccepted⟩ := h
  have hRest : nextKind rest = .newline ∨ nextKind rest = .eof := by
    rcases cases_of_takeLineEnd ended with ⟨lineEnd, hKind, rfl⟩ | ⟨hKind, -⟩
    · exact .inl hKind
    · exact .inr hKind
  have hNext : nextKind (written.flatMap (·.tokens) ++ rest) = .modifierKey ∨
      nextKind (written.flatMap (·.tokens) ++ rest) = .newline ∨
      nextKind (written.flatMap (·.tokens) ++ rest) = .eof := by
    cases written with
    | nil => exact .inr hRest
    | cons w ws => exact .inl (hWellFormed w (by simp)).key
  have hModifiers : c.takeModifiers schema header.text (written.flatMap (·.tokens) ++ rest) =
      .ok (lastTable written, rest) :=
    takeModifiers_of_written hWellFormed hAccepted (by rcases hRest with h | h <;> simp [h])
  have hFront := CommandFront.front hName hNotChain hKnown hColon hInput hNeeded
  have hTaken := @takeHeading_of_front c step _ (written.flatMap (·.tokens) ++ rest) _ _
    hFront (by rcases hNext with h | h | h <;> rw [h] <;> rfl)
    (by rcases hNext with h | h | h <;> simp [h])
  rw [List.cons_append, List.cons_append, List.append_assoc, ← List.cons_append,
    ← List.cons_append, hTaken, hModifiers]
  change (c.takeLineEnd _ _ >>= _) = _
  rw [ended]
  rfl

theorem takeHeading_of_commandLine {step : Option Nat} {line rest : List Token} {lineEnd : Token}
    {i : Invocation} (h : CommandLine c.grammar step line i) (hEnd : lineEnd.kind = .newline) :
    c.takeHeading step (line ++ lineEnd :: rest) = .ok (.command i, rest) :=
  takeHeading_of_ended h (takeLineEnd_of_newline hEnd)

theorem takeHeading_of_chainLine {step : Option Nat} {line rest : List Token}
    {header lineEnd indent : Token} {schema : Schema} (h : ChainLine c.grammar line header schema)
    (ended : lineEnd.kind = .newline) (opened : indent.kind = .indent) :
    c.takeHeading step (line ++ lineEnd :: indent :: rest) =
      .ok (.chain header (step.map fun _ => schema.label), rest) := by
  obtain @⟨header, colon, schema, written, name, isChain, known, mark, wellFormed, accepted⟩ := h
  rw [List.cons_append, List.cons_append]
  generalize hMore : written.flatMap (·.tokens) ++ lineEnd :: indent :: rest = more
  have hModifiers : c.takeModifiers schema header.text more =
      .ok (lastTable written, lineEnd :: indent :: rest) := by
    rw [← hMore]
    exact takeModifiers_of_written wellFormed accepted (by simp [nextKind, frontToken, ended])
  have hFront : (frontToken more).kind.isString = false ∧
      (frontToken more).kind ≠ .bareReference := by
    subst hMore
    cases written with
    | nil => simp [frontToken, ended, TokenKind.isString]
    | cons w ws =>
      have hKey := (wellFormed w List.mem_cons_self).key
      simp [frontToken, WrittenModifier.tokens, hKey, TokenKind.isString]
  rw [takeHeading, takeName_of_name name mark (isChain ▸ known)]
  dsimp only
  rw [if_pos isChain, takeChainStart]
  dsimp only
  rw [if_neg (by simp [hFront]), hModifiers]
  change (c.takeLineEnd _ _ >>= _) = _
  rw [takeLineEnd_of_newline ended]
  exact if_pos opened

theorem takeHeading_of_chainStart {step : Option Nat} {header colon lineEnd indent : Token}
    {schema : Schema} {rest : List Token} (hName : header.kind = .commandName)
    (hChain : header.text = chainCommand) (hKnown : c.grammar.find? chainCommand = some schema)
    (hColon : colon.kind = .colon) (hEnd : lineEnd.kind = .newline)
    (hIndent : indent.kind = .indent) :
    c.takeHeading step (header :: colon :: lineEnd :: indent :: rest) =
      .ok (.chain header (step.map fun _ => schema.label), rest) := by
  have hPlain : ∀ m ∈ lastSettings [], schema.Accepts m.1 m.2 := by simp [lastSettings]
  exact takeHeading_of_chainLine
    (.line hName hChain hKnown hColon (List.forall_mem_nil _) hPlain) hEnd hIndent

end ParseContext

end Directive
