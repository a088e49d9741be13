import Directive.Modifier.Key
import Directive.Proofs.Text.Blank
import Directive.Proofs.Token.Cursor
import Directive.Proofs.Token.Quote

/-!
# Written lines

The line of a command with its arguments, and that the lexer reads them back.

* `ReadsAs`: a text in front of more text is one argument, wherever it stands;
* `readsAs_quote`, `readsAs_blockQuote`, `readsAs_phrase`, `readsAs_modifier`: each kind of argument;
* `scanArguments_write`: arguments one after the other;
* `scanLine_write`: the whole line, behind any indentation that the layout allows.
-/

namespace Directive

/-- What a token says, without its position. -/
def Token.content (t : Token) : TokenKind × String := (t.kind, t.text)

/-- Wherever it stands, the text in front of `more` is read as one argument. -/
structure ReadsAs (text more : List Char) (contents : List (TokenKind × String)) : Prop where
  starts : ∃ c cs, text = c :: cs ∧ isIndentChar c = false ∧ c ≠ '\n'
  read : ∀ line column, ∃ ts,
    argument ⟨text ++ more, line, column⟩ = .ok (ts, text.length) ∧ ts.map Token.content = contents

theorem argument_of_quote {cs : List Char} {line column : Int} (h : ¬ ['"', '"'] <+: cs) :
    argument ⟨'"' :: cs, line, column⟩ =
      match quotedBody? cs with
      | some (text, n) =>
        .ok ([Cursor.token ⟨'"' :: cs, line, column⟩ .quotedString text], n + 1)
      | none => Cursor.fail ⟨'"' :: cs, line, column⟩ .openString := by
  rw [argument.eq_def]
  split
  · rename_i hFirst
    cases hFirst
    exact absurd ⟨_, rfl⟩ h
  · rename_i hFirst
    cases hFirst
    rfl
  · rename_i hFirst
    cases hFirst
  · rename_i hNoQuote _
    exact absurd rfl (hNoQuote cs)

theorem escape_eq_cons (c : Char) : ∃ d ds, escape c = d :: ds ∧ d ≠ '"' := by
  unfold escape
  split
  · exact ⟨_, _, rfl, by decide⟩
  · exact ⟨_, _, rfl, by decide⟩
  · exact ⟨_, _, rfl, by decide⟩
  · exact ⟨_, _, rfl, by decide⟩
  · rename_i hQuote _ _
    exact ⟨_, _, rfl, hQuote⟩

/-- A text in quotes is read up to its closing quote. Another quote behind that one could make it the
start of a block. -/
theorem argument_quote (text : List Char) {more : List Char} (h : more.head? ≠ some '"')
    (line column : Int) : argument ⟨quote text ++ more, line, column⟩ =
      .ok ([⟨.quotedString, String.ofList text, line, column⟩], (quote text).length) := by
  have hOpens : ¬ ['"', '"'] <+: text.flatMap escape ++ '"' :: more := by
    rintro ⟨tail, hTail⟩
    cases text with
    | nil =>
      cases hTail
      exact h rfl
    | cons d text =>
      obtain ⟨e, es, hEscape, hNoQuote⟩ := escape_eq_cons d
      rw [List.flatMap_cons, hEscape] at hTail
      exact hNoQuote (List.cons.inj hTail).1.symm
  have hText : quote text ++ more = '"' :: (text.flatMap escape ++ '"' :: more) := by
    simp [quote]
  rw [hText, argument_of_quote hOpens, quotedBody?_flatMap_escape, quote, List.length_cons,
    List.length_append]
  rfl

theorem readsAs_quote (text : List Char) {more : List Char} (h : more.head? ≠ some '"') :
    ReadsAs (quote text) more [(.quotedString, String.ofList text)] :=
  ⟨⟨'"', _, rfl, rfl, by decide⟩, fun line column => ⟨_, argument_quote text h line column, rfl⟩⟩

theorem readsAs_blockQuote {text : List Char} (h : ¬ ClosesBlock text) (more : List Char) :
    ReadsAs (blockQuote text) more [(.blockString, String.ofList text)] := by
  refine ⟨⟨'"', _, rfl, rfl, by decide⟩, fun line column => ?_⟩
  have hText : blockQuote text ++ more =
      '"' :: '"' :: '"' :: (text ++ '"' :: '"' :: '"' :: more) := by
    simp [blockQuote]
  refine ⟨[⟨.blockString, String.ofList text, line, column⟩], ?_, rfl⟩
  rw [hText, argument]
  simp only [blockBody?_append h]
  rw [blockQuote, List.length_cons, List.length_cons, List.length_cons, List.length_append]
  rfl

theorem readsAs_phrase {text more : List Char} (h : IsPhrase text) (hMore : PhraseEnd more) :
    ReadsAs text more [(.bareReference, String.ofList text)] := by
  obtain ⟨c, cs, rfl⟩ := List.exists_cons_of_ne_nil h.nonempty
  have hFirst := h.noBlankFirst c rfl
  refine ⟨⟨c, cs, rfl, ?_, fun hLine => h.oneLine (by simp [hLine])⟩, fun line column => ?_⟩
  · rw [isIndentChar, Bool.or_eq_false_iff, beq_eq_false_iff_ne, beq_eq_false_iff_ne]
    constructor
    · rintro rfl
      simp [Text.isBlank] at hFirst
    · rintro rfl
      simp [Text.isBlank] at hFirst
  · have hSpan := referenceSpan_append hMore h.oneLine h.noBlankLast h.noGap
    rw [argument.eq_def]
    split
    · rename_i hQuote
      exact absurd (congrArg some (List.cons.inj hQuote).1) h.noQuote
    · rename_i hQuote
      exact absurd (congrArg some (List.cons.inj hQuote).1) h.noQuote
    · rename_i hDashes
      injection hDashes with hDash hMore'
      subst hDash
      rcases cs with _ | ⟨d, cs⟩
      · obtain (rfl | ⟨rest, rfl⟩) | ⟨rest, rfl⟩ := hMore.imp_left EndsLine.cases <;>
          simp at hMore'
      · cases hMore'
        exact absurd ⟨cs, rfl⟩ h.noDashes
    · dsimp only
      rw [hSpan, Text.trimEndChars_eq_self h.noBlankLast]
      exact ⟨_, rfl, by simp [Token.content, Cursor.token]⟩

theorem nameAt?_append {p : Char → Bool} {name more : List Char}
    (h : isNameOf isNameStart p name = true)
    (hMore : ∀ c ∈ more.head?, p c = false) : nameAt? p (name ++ more) = some name := by
  cases name with
  | nil => cases h
  | cons c cs =>
    rw [isNameOf, Bool.and_eq_true, List.all_eq_true] at h
    rw [List.cons_append, nameAt?, if_pos h.1, List.takeWhile_append_of_pos h.2]
    cases more with
    | nil => simp
    | cons d more => simp [hMore d rfl]

/-- A modifier with its value in quotes. -/
def writeModifier (key raw : List Char) : List Char := '-' :: '-' :: (key ++ '=' :: quote raw)

theorem readsAs_modifier {key : List Char} (h : isNameOf isNameStart isKeyChar key = true)
    (raw more : List Char) :
    ReadsAs (writeModifier key raw) more
      [(.modifierKey, String.ofList key), (.modifierValue, String.ofList raw)] := by
  refine ⟨⟨'-', _, rfl, rfl, by decide⟩, fun line column => ?_⟩
  have hText : writeModifier key raw ++ more =
      '-' :: '-' :: (key ++ '=' :: '"' :: (raw.flatMap escape ++ '"' :: more)) := by
    simp [writeModifier, quote]
  have hName : nameAt? isKeyChar (key ++ '=' :: '"' :: (raw.flatMap escape ++ '"' :: more)) =
      some key := nameAt?_append h (by simp [isKeyChar, isNameChar])
  have hValue : ∀ l k, ∃ value, modifierValue ⟨'"' :: (raw.flatMap escape ++ '"' :: more), l, k⟩ =
      .ok (value, (quote raw).length) ∧ value.content = (.modifierValue, String.ofList raw) := by
    intro l k
    refine ⟨⟨.modifierValue, String.ofList raw, l, k⟩, ?_, rfl⟩
    simp only [modifierValue, quotedBody?_flatMap_escape]
    rw [quote, List.length_cons, List.length_append]
    rfl
  rw [hText]
  change ∃ ts, modifier _ = _ ∧ _
  have hKey : ∀ cs, Cursor.advance ⟨'-' :: '-' :: cs, line, column⟩ 2 =
      ⟨cs, line, column + 1 + 1⟩ := fun _ => rfl
  obtain ⟨value, hModifierValue, hContent⟩ := hValue (line + key.count '\n')
    (columnAfter key (column + 1 + 1) + 1)
  have hLength : key.length + 3 + (quote raw).length = (writeModifier key raw).length := by
    simp only [writeModifier, List.length_cons, List.length_append]
    omega
  refine ⟨[⟨.modifierKey, String.ofList key, line, column⟩, value], ?_, ?_⟩
  · rw [modifier, hKey]
    simp only [hName, Cursor.advance_append]
    rw [Cursor.next_cons (by decide), hModifierValue, ← hLength]
    rfl
  · rw [List.map_cons, List.map_cons, hContent]
    rfl

/-- An argument as it is written, and what its tokens say. -/
structure WrittenArgument where
  text : List Char
  contents : List (TokenKind × String)

def writeArguments (args : List WrittenArgument) : List Char :=
  args.flatMap fun a => ' ' :: a.text

/-- Each argument is read as what it says, in front of the others and of `tail`. -/
def AllRead (tail : List Char) : List WrittenArgument → Prop
  | [] => True
  | a :: args => ReadsAs a.text (writeArguments args ++ tail) a.contents ∧ AllRead tail args

theorem scanArguments_write {args : List WrittenArgument} {tail : List Char}
    (h : AllRead tail args) (ends : EndsLine tail) (line column : Int) :
    ∃ ts column', scanArguments ⟨writeArguments args ++ tail, line, column⟩ =
        .ok (ts, ⟨tail, line + (writeArguments args).count '\n', column'⟩) ∧
      ts.map Token.content = args.flatMap (·.contents) := by
  induction args generalizing line column with
  | nil =>
    refine ⟨[], column, ?_, rfl⟩
    have hHere : Cursor.skip isIndentChar ⟨tail, line, column⟩ = ⟨tail, line, column⟩ ∧
        Cursor.atLineEnd ⟨tail, line, column⟩ = true := by
      obtain rfl | ⟨more, rfl⟩ := ends.cases <;> exact ⟨rfl, rfl⟩
    rw [writeArguments, List.flatMap_nil, List.nil_append, scanArguments, hHere.1]
    simp [hHere.2]
  | cons a args ih =>
    obtain ⟨hFirst, hRest⟩ := h
    obtain ⟨⟨c, cs, hText, hCode, hLine⟩, hRead⟩ := hFirst
    obtain ⟨ts, hArgument, hContents⟩ := hRead line (column + 1)
    obtain ⟨others, column', hOthers, hOtherContents⟩ :=
      ih hRest (line + a.text.count '\n') (columnAfter a.text (column + 1))
    refine ⟨ts ++ others, column', ?_, ?_⟩
    · have hHere : Cursor.skip isIndentChar
          ⟨writeArguments (a :: args) ++ tail, line, column⟩ =
            ⟨a.text ++ (writeArguments args ++ tail), line, column + 1⟩ := by
        rw [writeArguments, List.flatMap_cons, List.append_assoc]
        exact @Cursor.skip_append _ [' '] _ (by simp [isIndentChar]) (by simp [hText, hCode])
          (by simp) line column
      have hInside : Cursor.atLineEnd
          ⟨a.text ++ (writeArguments args ++ tail), line, column + 1⟩ = false := by
        simp [hText, Cursor.atLineEnd, hLine]
      have hPositive : 0 < a.text.length := by simp [hText]
      have hCount : (writeArguments (a :: args)).count '\n' =
          a.text.count '\n' + (writeArguments args).count '\n' := by
        simp [writeArguments]
      rw [scanArguments, hHere]
      simp only [hInside, hArgument, if_pos hPositive, Cursor.advance_append, hOthers]
      rw [if_neg Bool.false_ne_true, hCount, Int.natCast_add, Int.add_assoc]
    · rw [List.map_append, hContents, hOtherContents, List.flatMap_cons]

/-- The line of a command with some arguments. -/
def writeLine (name : List Char) (args : List WrittenArgument) : List Char :=
  name ++ ':' :: writeArguments args

theorem header_write {name more : List Char} (h : isNameOf isNameStart isNameChar name = true)
    (line column : Int) :
    ∃ colon : Token, header ⟨name ++ ':' :: more, line, column⟩ =
        ([⟨.commandName, String.ofList name, line, column⟩, colon], name.length + 1) ∧
      colon.content = (.colon, ":") := by
  have hName : nameAt? isNameChar (name ++ ':' :: more) = some name :=
    nameAt?_append h (by simp [isNameChar])
  refine ⟨⟨.colon, ":", line + name.count '\n', columnAfter name column⟩, ?_, rfl⟩
  unfold header
  simp only [hName, Cursor.advance_append]
  rfl

theorem not_mem_of_name {p : Char → Bool} {name : List Char} {ch : Char}
    (h : isNameOf isNameStart p name = true) (hStart : isNameStart ch = false)
    (hRest : p ch = false) : ch ∉ name := by
  cases name with
  | nil => cases h
  | cons c cs =>
    rw [isNameOf, Bool.and_eq_true, List.all_eq_true] at h
    intro hMem
    rcases List.mem_cons.mp hMem with rfl | hMem
    · rw [h.1] at hStart
      cases hStart
    · rw [h.2 ch hMem] at hRest
      cases hRest

theorem scanLine_of_code {l inner : Layout} {run code : List Char}
    {lead headerTokens arguments : List Token}
    {line : Int} {n : Nat} {last : Cursor} (hRun : ∀ c ∈ run, isIndentChar c = true)
    (hCode : ∃ c cs, code = c :: cs ∧ isIndentChar c = false ∧ c ≠ '\n' ∧ c ≠ '#')
    (hEnter : l.enter run line = .ok (inner, lead))
    (hHeader : header ⟨code, line, 1 + run.length⟩ = (headerTokens, n))
    (hArguments : scanArguments (Cursor.advance ⟨code, line, 1 + run.length⟩ n) =
      .ok (arguments, last)) :
    scanLine l ⟨run ++ code, line, 1⟩ =
      .ok (lead ++ headerTokens ++ arguments ++ [last.token .newline ['\n']], inner, last) := by
  obtain ⟨c, cs, rfl, hIndent, hLine, hComment⟩ := hCode
  have hTaken : (run ++ c :: cs).takeWhile isIndentChar = run := by
    rw [List.takeWhile_append_of_pos hRun]
    simp [hIndent]
  have hHere : Cursor.advance ⟨run ++ c :: cs, line, 1⟩ run.length =
      ⟨c :: cs, line, 1 + run.length⟩ := by
    have hSkip := @Cursor.skip_append isIndentChar run (c :: cs) hRun (by simp [hIndent])
      (fun h => absurd (hRun _ h) (by decide)) line 1
    rwa [Cursor.skip, hTaken] at hSkip
  have hInside :
      (Cursor.atLineEnd ⟨c :: cs, line, 1 + run.length⟩ || some c == some '#') = false := by
    simp [Cursor.atLineEnd, hLine, hComment]
  simp only [scanLine, hTaken, hHere, List.head?_cons, hInside, hEnter, hHeader, hArguments]
  rfl

theorem first_of_name {p : Char → Bool} {name : List Char}
    (h : isNameOf isNameStart p name = true) :
    ∃ c cs, name = c :: cs ∧ isIndentChar c = false ∧ c ≠ '\n' ∧ c ≠ '#' := by
  cases name with
  | nil => cases h
  | cons c cs =>
    rw [isNameOf, Bool.and_eq_true] at h
    refine ⟨c, cs, rfl, Bool.eq_false_iff.mpr ?_, ?_, ?_⟩
    · intro hIndent
      rw [isIndentChar, Bool.or_eq_true, beq_iff_eq, beq_iff_eq] at hIndent
      rcases hIndent with rfl | rfl <;> cases h.1
    · rintro rfl
      cases h.1
    · rintro rfl
      cases h.1

theorem scanLine_write {l inner : Layout} {run name tail : List Char} {args : List WrittenArgument}
    {lead : List Token} {line : Int} (hEnter : l.enter run line = .ok (inner, lead))
    (hRun : ∀ c ∈ run, isIndentChar c = true) (hName : isNameOf isNameStart isNameChar name = true)
    (hArgs : AllRead tail args) (ends : EndsLine tail) :
    ∃ (colon lineEnd : Token) (ts : List Token) (column : Int),
      scanLine l ⟨run ++ (writeLine name args ++ tail), line, 1⟩ =
        .ok (lead ++ [⟨.commandName, String.ofList name, line, 1 + run.length⟩, colon] ++ ts ++
            [lineEnd], inner,
          ⟨tail, line + (writeLine name args).count '\n', column⟩) ∧
      colon.content = (.colon, ":") ∧ lineEnd.content = (.newline, "\n") ∧
      ts.map Token.content = args.flatMap (·.contents) := by
  have hNoBreak : '\n' ∉ name := not_mem_of_name hName (by decide) (by decide)
  obtain ⟨colon, hHeader, hColon⟩ := @header_write _ (writeArguments args ++ tail)
    hName line (1 + run.length)
  obtain ⟨ts, column, hArguments, hContents⟩ := scanArguments_write hArgs ends line
    (columnAfter (name ++ [':']) (1 + run.length))
  have hText : writeLine name args ++ tail =
      name ++ ':' :: (writeArguments args ++ tail) := by
    simp [writeLine]
  have hLines : (writeLine name args).count '\n' = (writeArguments args).count '\n' := by
    rw [writeLine, List.count_append, List.count_cons_of_ne (by decide : ':' ≠ '\n'),
      List.count_eq_zero_of_not_mem hNoBreak, Nat.zero_add]
  have hAfter : Cursor.advance ⟨name ++ ':' :: (writeArguments args ++ tail), line,
      1 + run.length⟩ (name.length + 1) =
        ⟨writeArguments args ++ tail, line, columnAfter (name ++ [':']) (1 + run.length)⟩ := by
    have hAdvance := Cursor.advance_append (name ++ [':']) (writeArguments args ++ tail) line
      (1 + run.length)
    have hCount : (name ++ [':']).count '\n' = 0 :=
      List.count_eq_zero_of_not_mem (by simpa using hNoBreak)
    rw [hCount, List.append_assoc, List.length_append] at hAdvance
    simpa using hAdvance
  obtain ⟨c, cs, hFirst, hCode⟩ := first_of_name hName
  rw [← hAfter] at hArguments
  refine ⟨colon, ⟨.newline, "\n", line + (writeArguments args).count '\n', column⟩, ts, column, ?_,
    hColon, rfl, hContents⟩
  rw [hText, hLines]
  exact scanLine_of_code hRun ⟨c, _, by rw [hFirst]; rfl, hCode⟩ hEnter hHeader hArguments

end Directive
