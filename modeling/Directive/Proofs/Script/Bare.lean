import Directive.Proofs.Script.Moved
import Directive.Proofs.Script.Reading

/-!
# Parsing without columns

A parse looks at columns only to write them into its tree and its faults, and at the text of an indent not
at all.

* `Node.bare`, `Fault.bare`: a tree and a fault without columns;
* `seen`: what a parser comes to, without columns;
* `nodesOf_bare`: the nodes of a block, from tokens without columns;
* `ofTokens_bare`: a script.
-/

namespace Directive

open ParseContext

def Node.bare : Node → Node := Node.relocate columnless

theorem Node.bare_chain (slot : Option String) (line column : Int) (steps : List Node) :
    (Node.chain slot line column steps).bare = .chain slot line 0 (steps.map Node.bare) := by
  rw [Node.bare, Node.relocate, Node.relocateAll_eq_map]
  rfl

/-- A place without its column and without the line of the text that it quotes. -/
def Place.bare (p : Place) : Place :=
  { p with column := p.column.map fun _ => 0, sourceLine := none }

def Fault.bare (f : Fault) : Fault := { f with place := f.place.bare }

def Stop.bare (e : Stop) : Stop := ⟨e.fault.bare, e.ahead.map Token.bare⟩

namespace Token

variable {t : Token}

@[simp]
theorem kind_bare (t : Token) : t.bare.kind = t.kind := rfl

theorem text_bare (h : t.kind ≠ .indent) : t.bare.text = t.text := if_neg h

theorem bare_eq (h : t.kind ≠ .indent) : t.bare = t.relocate columnless := by
  rw [bare, if_neg h]
  rfl

theorem describe_bare (t : Token) : t.bare.describe = t.describe := by
  by_cases h : t.kind = .indent
  · rw [describe, describe, kind_bare, h]
  · rw [describe, describe, kind_bare, text_bare h]

end Token

theorem frontToken_bare (ts : List Token) : frontToken (ts.map Token.bare) = (frontToken ts).bare := by
  cases ts <;> rfl

theorem nextKind_bare (ts : List Token) : nextKind (ts.map Token.bare) = nextKind ts := by
  rw [nextKind, nextKind, frontToken_bare, Token.kind_bare]

/-- What a parser comes to, without columns: a result or a fault. -/
def seen {α β : Type} (f : α → β) (x : Except Stop α) : Except Stop β :=
  (x.map f).mapError Stop.bare

section Seen

variable {α β γ δ : Type}

theorem seen_bind {f : α → β} {g : γ → δ} {x : Except Stop α} {x' : Except Stop β}
    {next : α → Except Stop γ} {next' : β → Except Stop δ} (first : x' = seen f x)
    (second : ∀ a, x = .ok a → next' (f a) = seen g (next a)) :
    x' >>= next' = seen g (x >>= next) := by
  subst first
  rcases x with e | a
  · rfl
  · exact second a rfl

theorem seen_map {f : α → β} {g : γ → δ} {h : α → γ} {h' : β → δ} (x : Except Stop α)
    (same : ∀ a, h' (f a) = g (h a)) : (seen f x).map h' = seen g (x.map h) := by
  rcases x with e | a
  · rfl
  · exact congrArg Except.ok (same a)

end Seen

namespace ParseContext

/-- The same parser, with no lines to quote. -/
def plain (c : ParseContext) : ParseContext := { c with lines := [] }

variable (c : ParseContext)

theorem placeOf_columnless (t : Token) (command : Option String) :
    c.plain.placeOf (t.relocate columnless) command = (c.placeOf t command).bare := by
  simp [placeOf, plain, lineAt?, Place.bare, columnless]

theorem stop_columnless {α β : Type} (f : α → β) (p : ParseProblem) (t : Token)
    (ahead : List Token) :
    c.plain.stop p (t.relocate columnless) (ahead.map Token.bare) = seen f (c.stop p t ahead) := by
  rw [stop, stop, placeOf_columnless]
  rfl

theorem stop_bare {α β : Type} (f : α → β) (p : ParseProblem) (t : Token) (ahead : List Token) :
    c.plain.stop p t.bare (ahead.map Token.bare) = seen f (c.stop p t ahead) :=
  c.stop_columnless f p t ahead

variable {c} {step : Option Nat} {ts : List Token}

theorem kind_ne_indent_of_isString {t : Token} (h : t.kind.isString = true) : t.kind ≠ .indent := by
  intro hIndent
  rw [hIndent] at h
  cases h

theorem takeStrings_bare (ts : List Token) : takeStrings (ts.map Token.bare) =
    ((takeStrings ts).1, (takeStrings ts).2.map Token.bare) := by
  induction ts with
  | nil => rfl
  | cons t ts ih =>
    rw [List.map_cons, takeStrings, takeStrings, Token.kind_bare, ih]
    by_cases hString : t.kind.isString = true
    · rw [if_pos hString, if_pos hString, Token.text_bare (kind_ne_indent_of_isString hString)]
    · rw [if_neg hString, if_neg hString]
      rfl

theorem takeInput_bare : c.plain.takeInput step (ts.map Token.bare) =
    seen (Prod.map id (List.map Token.bare)) (c.takeInput step ts) := by
  unfold takeInput
  rw [takeStrings_bare]
  rcases takeStrings ts with ⟨_ | ⟨part, parts⟩, rest⟩
  · cases ts with
    | nil => rfl
    | cons t ts =>
      rw [List.map_cons]
      dsimp only
      rw [Token.kind_bare]
      by_cases hReference : t.kind = .bareReference
      · rw [if_pos hReference, if_pos hReference, Token.text_bare (by simp [hReference])]
        split
        · exact c.stop_bare _ _ _ _
        · exact c.stop_bare _ _ _ _
        · rfl
      · rw [if_neg hReference, if_neg hReference]
        rfl
  · dsimp only
    rw [frontToken_bare, Token.kind_bare]
    by_cases hReference : (frontToken rest).kind = .bareReference
    · rw [if_pos hReference, if_pos hReference, Token.text_bare (by simp [hReference])]
      exact c.stop_bare _ _ _ _
    · rw [if_neg hReference, if_neg hReference]
      rfl

theorem takeWritten_bare : c.plain.takeWritten (ts.map Token.bare) =
    seen (Prod.map (List.map (WrittenModifier.relocate columnless)) (List.map Token.bare))
      (c.takeWritten ts) := by
  fun_induction takeWritten c ts with
  | case1 => rfl
  | case2 key hKey value rest hValue hBlank =>
    rw [List.map_cons, List.map_cons, takeWritten, Token.kind_bare, if_pos hKey, Token.kind_bare,
      if_pos hValue, Token.text_bare (by simp [hValue]), if_pos hBlank,
      Token.text_bare (by simp [hKey])]
    exact c.stop_bare _ _ _ _
  | case3 key hKey value rest hValue hBlank more rest' hMore ih =>
    rw [List.map_cons, List.map_cons, takeWritten, Token.kind_bare, if_pos hKey, Token.kind_bare,
      if_pos hValue, Token.text_bare (by simp [hValue]), if_neg hBlank, ih,
      Token.bare_eq (by simp [hKey]), Token.bare_eq (by simp [hValue]), hMore]
    rfl
  | case4 key hKey value rest hValue hBlank e hMore ih =>
    rw [List.map_cons, List.map_cons, takeWritten, Token.kind_bare, if_pos hKey, Token.kind_bare,
      if_pos hValue, Token.text_bare (by simp [hValue]), if_neg hBlank, ih, hMore]
    rfl
  | case5 key hKey value rest hValue =>
    rw [List.map_cons, List.map_cons, takeWritten, Token.kind_bare, if_pos hKey, Token.kind_bare,
      if_neg hValue, Token.text_bare (by simp [hKey])]
    exact c.stop_bare _ _ _ (value :: rest)
  | case6 key hKey =>
    rw [List.map_cons, List.map_nil, takeWritten, Token.kind_bare, if_pos hKey,
      Token.text_bare (by simp [hKey])]
    exact c.stop_bare _ _ _ []
  | case7 key rest hKey =>
    rw [List.map_cons, takeWritten.eq_def]
    dsimp only
    rw [Token.kind_bare, if_neg hKey]
    rfl

theorem find?_relocate {p : WrittenModifier → Bool} {written : List WrittenModifier}
    (same : ∀ w, p (w.relocate columnless) = p w) :
    (written.map (WrittenModifier.relocate columnless)).find? p =
      (written.find? p).map (WrittenModifier.relocate columnless) := by
  rw [List.find?_map, show p ∘ WrittenModifier.relocate columnless = p from funext same]

theorem placeOfKey_bare (command : String) (written : List WrittenModifier) (key : String) :
    c.plain.placeOfKey command (written.map (WrittenModifier.relocate columnless)) key =
      (c.placeOfKey command written key).bare := by
  rw [placeOfKey, placeOfKey, ← List.map_reverse, find?_relocate fun w => rfl]
  split
  · rename_i w hFound
    obtain ⟨w, hLast, rfl⟩ := Option.map_eq_some_iff.mp hFound
    rw [hLast]
    exact c.placeOf_columnless w.key (some command)
  · rename_i hNone
    rw [Option.map_eq_none_iff.mp hNone]
    rfl

theorem settings_relocate (written : List WrittenModifier) :
    settings (written.map (WrittenModifier.relocate columnless)) = settings written :=
  List.foldl_map

theorem firstObjection?_bare (schema : Schema) (placeOf : String → Place)
    (ms : List (String × Setting)) : schema.firstObjection? (fun key => (placeOf key).bare) ms =
      (schema.firstObjection? placeOf ms).map Fault.bare := by
  induction ms with
  | nil => rfl
  | cons m ms ih =>
    obtain ⟨key, value⟩ := m
    rw [Schema.firstObjection?, Schema.firstObjection?]
    cases schema.objection? key value with
    | none => exact ih
    | some trouble => rfl

theorem validateAll_bare (schema : Schema) (modifiers : Table Setting) (placeOf : String → Place) :
    (schema.validateAll modifiers fun key => (placeOf key).bare) =
      (schema.validateAll modifiers placeOf).mapError Fault.bare := by
  unfold Schema.validateAll
  rw [firstObjection?_bare]
  cases schema.firstObjection? placeOf modifiers.entries <;> rfl

theorem takeModifiers_bare (schema : Schema) (command : String) :
    c.plain.takeModifiers schema command (ts.map Token.bare) =
      seen (Prod.map id (List.map Token.bare)) (c.takeModifiers schema command ts) := by
  unfold takeModifiers
  rw [takeWritten_bare]
  rcases c.takeWritten ts with e | ⟨written, rest⟩
  · rfl
  have hPlace : c.plain.placeOfKey command (written.map (WrittenModifier.relocate columnless)) =
      fun key => (c.placeOfKey command written key).bare := funext (placeOfKey_bare command written)
  simp only [seen, Except.map, Except.mapError, Prod.map, settings_relocate, hPlace, validateAll_bare]
  cases schema.validateAll (settings written) (c.placeOfKey command written) <;> rfl

theorem takeLineEnd_bare (command : String) : c.plain.takeLineEnd command (ts.map Token.bare) =
    seen (List.map Token.bare) (c.takeLineEnd command ts) := by
  unfold takeLineEnd
  rw [nextKind_bare, frontToken_bare, Token.describe_bare]
  split
  · rw [← List.map_drop]
    rfl
  · rfl
  · exact c.stop_bare _ _ _ _

theorem takeName_bare : c.plain.takeName (ts.map Token.bare) =
    seen (Prod.map (Prod.map (Token.relocate columnless) id) (List.map Token.bare))
      (c.takeName ts) := by
  by_cases hName : nextKind ts = .commandName
  · have hName' : nextKind (ts.map Token.bare) = .commandName := (nextKind_bare ts).trans hName
    have hNotIndent : (frontToken ts).kind ≠ .indent := by
      rw [show (frontToken ts).kind = .commandName from hName]
      simp
    have hText : (frontToken (ts.map Token.bare)).text = (frontToken ts).text := by
      rw [frontToken_bare, Token.text_bare hNotIndent]
    have hDrop : (ts.map Token.bare).drop 1 = (ts.drop 1).map Token.bare := by rw [List.map_drop]
    cases hKnown : c.grammar.find? (frontToken ts).text with
    | none =>
      have hUnknown : c.plain.grammar.find? (frontToken (ts.map Token.bare)).text = none :=
        hText.symm ▸ hKnown
      rw [takeName_of_unknown hName hKnown, takeName_of_unknown hName' hUnknown, hText, hDrop,
        frontToken_bare]
      exact c.stop_bare _ _ _ _
    | some schema =>
      have hKnown' : c.plain.grammar.find? (frontToken (ts.map Token.bare)).text = some schema :=
        hText.symm ▸ hKnown
      rw [takeName_of_known hName hKnown, takeName_of_known hName' hKnown', hText, hDrop,
        nextKind_bare]
      by_cases hColon : nextKind (ts.drop 1) = .colon
      · rw [if_pos hColon, if_pos hColon, frontToken_bare, Token.bare_eq hNotIndent, ← List.map_drop]
        rfl
      · rw [if_neg hColon, if_neg hColon, frontToken_bare]
        exact c.stop_bare _ _ _ _
  · rw [takeName_of_other hName, takeName_of_other (by rwa [nextKind_bare]), frontToken_bare,
      Token.describe_bare]
    exact c.stop_bare _ _ _ _

/-- A heading without columns. -/
def Heading.bare : Heading → Heading
  | .command i => .command (i.relocate columnless)
  | .chain header slot => .chain (header.relocate columnless) slot

theorem takeChainStart_bare (header : Token) (schema : Schema) (slot : Option String) :
    c.plain.takeChainStart (header.relocate columnless) schema slot (ts.map Token.bare) =
      seen (Prod.map Heading.bare (List.map Token.bare)) (c.takeChainStart header schema slot ts) := by
  unfold takeChainStart
  dsimp only
  rw [frontToken_bare, Token.kind_bare]
  split
  · exact c.stop_bare _ _ _ _
  · rw [Token.text_relocate, takeModifiers_bare]
    apply seen_bind rfl
    rintro ⟨modifiers, rest⟩ -
    change c.plain.takeLineEnd chainCommand (rest.map Token.bare) >>= _ = _
    apply seen_bind (takeLineEnd_bare chainCommand)
    rintro rest' -
    rw [nextKind_bare]
    by_cases hIndent : nextKind rest' = .indent
    · rw [if_pos hIndent, if_pos hIndent, ← List.map_drop]
      rfl
    · rw [if_neg hIndent, if_neg hIndent]
      exact c.stop_columnless _ _ _ _

theorem takeCommand_bare (header : Token) (schema : Schema) (slot : Option String) :
    c.plain.takeCommand (header.relocate columnless) schema slot step (ts.map Token.bare) =
      seen (Prod.map Heading.bare (List.map Token.bare))
        (c.takeCommand header schema slot step ts) := by
  apply seen_bind takeInput_bare
  rintro ⟨input, rest⟩ -
  dsimp only [Prod.map]
  by_cases hMissing : (input.isNone && schema.requiresInput) = true
  · rw [id, if_pos hMissing, if_pos hMissing, frontToken_bare]
    exact c.stop_bare _ _ _ _
  · rw [id, if_neg hMissing, if_neg hMissing]
    apply seen_bind (takeModifiers_bare schema header.text)
    rintro ⟨modifiers, rest⟩ -
    apply seen_bind (takeLineEnd_bare header.text)
    rintro rest -
    rfl

theorem takeHeading_bare (step : Option Nat) (ts : List Token) :
    c.plain.takeHeading step (ts.map Token.bare) =
      seen (Prod.map Heading.bare (List.map Token.bare)) (c.takeHeading step ts) := by
  rw [takeHeading_eq_bind, takeHeading_eq_bind]
  apply seen_bind takeName_bare
  rintro ⟨⟨header, schema⟩, rest⟩ -
  dsimp only [Prod.map]
  by_cases hChain : header.text = chainCommand
  · have hChain' : (header.relocate columnless).text = chainCommand := hChain
    rw [if_pos hChain, if_pos hChain']
    exact takeChainStart_bare header schema _
  · have hChain' : ¬ (header.relocate columnless).text = chainCommand := hChain
    rw [if_neg hChain, if_neg hChain']
    exact takeCommand_bare header schema _

/-- The nodes behind a line, if those behind every list that is not longer are read so. -/
theorem afterHeading_bare {heading : Heading}
    (ih : ∀ (step : Option Nat) (ahead : List Token), ahead.length ≤ ts.length →
      c.plain.nodesOf step (ahead.map Token.bare) =
        seen (Prod.map (List.map Node.bare) (List.map Token.bare)) (c.nodesOf step ahead)) :
    c.plain.afterHeading step (heading.bare, ts.map Token.bare) =
      seen (Prod.map (List.map Node.bare) (List.map Token.bare))
        (c.afterHeading step (heading, ts)) := by
  cases heading with
  | command i =>
    change (c.plain.nodesOf _ _).map _ = seen _ ((c.nodesOf _ _).map _)
    rw [ih _ ts (Nat.le_refl _)]
    exact seen_map _ fun p => rfl
  | chain header slot =>
    rw [Heading.bare, afterHeading_chain, afterHeading_chain]
    apply seen_bind (ih (some 0) ts (Nat.le_refl _))
    rintro ⟨steps, ahead⟩ hSteps
    dsimp only [Prod.map]
    have hSame : (steps.map Node.bare).isEmpty = steps.isEmpty := List.isEmpty_map
    by_cases hNone : steps.isEmpty = true
    · rw [if_pos hNone, if_pos (hSame.trans hNone)]
      exact c.stop_columnless _ _ header ahead
    · rw [if_neg hNone, if_neg (by rwa [hSame]), ih _ ahead (c.nodesOf_le hSteps)]
      apply seen_map
      intro p
      rw [Prod.map, Prod.map, List.map_cons, Node.bare_chain]
      rfl

/-- The nodes of a block do not depend on columns. -/
theorem nodesOf_bare (c : ParseContext) (step : Option Nat) (ts : List Token) :
    c.plain.nodesOf step (ts.map Token.bare) =
      seen (Prod.map (List.map Node.bare) (List.map Token.bare)) (c.nodesOf step ts) := by
  induction step, ts using block_induction with
  | nil step =>
    rw [List.map_nil, nodesOf_nil, nodesOf_nil]
    rfl
  | eof step t ts hEof =>
    rw [List.map_cons, c.nodesOf_eof step hEof,
      c.plain.nodesOf_eof step (show t.bare.kind = .eof from hEof)]
    rfl
  | newline step t ts hNewline ih =>
    rw [List.map_cons, c.nodesOf_newline step hNewline,
      c.plain.nodesOf_newline step (show t.bare.kind = .newline from hNewline)]
    exact ih
  | dedent step t ts hDedent =>
    rw [List.map_cons, c.nodesOf_dedent step hDedent,
      c.plain.nodesOf_dedent step (show t.bare.kind = .dedent from hDedent)]
    cases step with
    | none => exact c.stop_bare _ _ t (t :: ts)
    | some k => rfl
  | indent step t ts hIndent =>
    rw [List.map_cons, c.nodesOf_indent step hIndent,
      c.plain.nodesOf_indent step (show t.bare.kind = .indent from hIndent)]
    exact c.stop_bare _ _ t (t :: ts)
  | heading step t ts hKind ih =>
    rw [List.map_cons, c.nodesOf_heading step hKind, c.plain.nodesOf_heading step (t := t.bare) hKind]
    apply seen_bind (takeHeading_bare step (t :: ts))
    rintro ⟨heading, ahead⟩ hHeading
    apply afterHeading_bare
    intro step' ahead' hLe
    exact ih step' ahead' (Nat.lt_of_le_of_lt hLe (c.takeHeading_lt hHeading))

end ParseContext

/-- **Parsing without columns.** -/
theorem ofTokens_bare (g : Grammar) (lines : List String) (ts : List Token) :
    Script.ofTokens g [] (ts.map Token.bare) =
      seen (fun s => ⟨s.items.map Node.bare⟩) (Script.ofTokens g lines ts) := by
  rw [Script.ofTokens_eq_map, Script.ofTokens_eq_map]
  exact (congrArg _ (nodesOf_bare ⟨g, lines⟩ none ts)).trans (seen_map _ fun p => rfl)

end Directive
