import Directive.Proofs.Script.Moved
import Directive.Proofs.Script.Shape
import Directive.Proofs.Token.Scan

/-!
# Scripts in a row

* `Indents`: the characters that a text indents its code with;
* `Reads.append`: what is read from the tokens of two scripts in a row;
* `ofText_append_items`: the script of two texts in a row.
-/

namespace Directive

open ParseContext

/-- Some line of code is set in with the character. The first such line opens a block, and the token
for it holds the characters that it is set in with. -/
def Indents (text : String) (c : Char) : Prop := ∃ ts, Token.ofText text = .ok ts ∧ IndentsWith ts c

instance (ts : List Token) (c : Char) : Decidable (IndentsWith ts c) :=
  inferInstanceAs (Decidable (∃ t ∈ ts, t.kind = .indent ∧ c ∈ t.text.toList))

instance (text : String) (c : Char) : Decidable (Indents text c) :=
  match hTokens : Token.ofText text with
  | .ok ts => decidable_of_iff (IndentsWith ts c)
    ⟨fun h => ⟨ts, hTokens, h⟩, fun ⟨_, hSome, h⟩ => Upshot.ok.inj (hTokens.symm.trans hSome) ▸ h⟩
  | .error _ => isFalse fun ⟨_, hSome, _⟩ => nomatch hTokens.symm.trans hSome
  | .endless => isFalse fun ⟨_, hSome, _⟩ => nomatch hTokens.symm.trans hSome

theorem Covers.indents {last : Option TokenKind} {passed source : List Char} {ts : List Token}
    (h : Covers last passed source ts) {c : Char} (indents : IndentsWith ts c) :
    c = ' ' ∨ c = '\t' := by
  induction h with
  | done =>
    obtain ⟨t, ht, -⟩ := indents
    cases ht
  | @token last passed gap span more first ts spacing line column spelled rest ih =>
    obtain ⟨t, ht, hKind, hChar⟩ := indents
    obtain rfl | ht := List.mem_cons.mp ht
    · rw [Token.Spelled, hKind] at spelled
      obtain ⟨-, hSpan, hRun, -⟩ := spelled
      have hIndent := hRun c (hSpan ▸ hChar)
      simpa [isIndentChar] using hIndent
    · exact ih ⟨t, ht, hKind, hChar⟩

/-- Two texts that do not indent with different characters. -/
theorem alike_of_indents {first second : String} {ts ts' : List Token}
    (hFirst : Token.ofText first = .ok ts) (hSecond : Token.ofText second = .ok ts')
    (notTabbed : ¬ (Indents first ' ' ∧ Indents second '\t'))
    (notSpaced : ¬ (Indents first '\t' ∧ Indents second ' ')) {a c : Char}
    (ha : IndentsWith ts a) (hc : IndentsWith ts' c) : c = a := by
  obtain rfl | rfl := (covers_of_ofText hFirst).1.indents ha
  · obtain rfl | rfl := (covers_of_ofText hSecond).1.indents hc
    · rfl
    · exact absurd ⟨⟨ts, hFirst, ha⟩, ts', hSecond, hc⟩ notTabbed
  · obtain rfl | rfl := (covers_of_ofText hSecond).1.indents hc
    · exact absurd ⟨⟨ts, hFirst, ha⟩, ts', hSecond, hc⟩ notSpaced
    · rfl

/-- No block begins with an indent. -/
theorem not_indent_of_reads {c : ParseContext} {step : Option Nat} {ts rest : List Token}
    {nodes : List Node} (h : Reads c step ts nodes rest) : ∀ t ∈ ts.head?, t.kind ≠ .indent := by
  intro t ht hIndent
  rw [← nextKind_of_head ht] at hIndent
  cases h with
  | nothing => cases ht
  | eof kind => exact absurd (hIndent.symm.trans kind) (by simp)
  | newline kind => exact absurd (hIndent.symm.trans kind) (by simp)
  | dedent kind => exact absurd (hIndent.symm.trans kind) (by simp)
  | command heading => exact absurd (hIndent.symm.trans (kind_of_takeHeading heading)) (by simp)
  | chain heading => exact absurd (hIndent.symm.trans (kind_of_takeHeading heading)) (by simp)

theorem ofText_of_reads {g : Grammar} {text : String} {ts rest : List Token} {items : List Node}
    (tokens : Token.ofText text = .ok ts)
    (h : Reads ⟨g, Script.quotableLines text⟩ none ts items rest) :
    Script.ofText g text = .ok ⟨items⟩ := by
  have hScript : Script.ofTokens g (Script.quotableLines text) ts = .ok ⟨items⟩ :=
    Script.ofTokens_eq_ok_iff.mpr ⟨rest, h⟩
  unfold Script.ofText
  rw [tokens]
  dsimp only
  rw [hScript]
  rfl

/-- What is read from the tokens of a script when these move and others stand at their end. -/
theorem reads_in_front {place : Int → Int → Int × Int} {c c' : ParseContext}
    {body body' ending rest rest' : List Token} {last : Token} {nodes more : List Node}
    (h : Reads c none (body ++ [last]) nodes rest) (same : c'.grammar = c.grammar)
    (laid : Laid true 0 (body ++ [last])) (moves : List.Forall₂ (Token.MovesTo place) body body')
    (next : Reads c' none ending more rest') :
    Reads c' none (body' ++ ending) (nodes.map (Node.relocate place) ++ more) rest' := by
  obtain ⟨front, _, hTokens, hEnding, hMoved⟩ := reads_moved h same laid (by simp)
  cases hEnding with
  | input kind =>
    obtain ⟨rfl, -⟩ := List.append_inj' hTokens rfl
    refine hMoved body' ending rest' more moves fun other hOther => ?_
    cases other with
    | none => exact next
    | some k => cases hOther

/-- What is read from the tokens of a script when these move. -/
theorem reads_relocate (place : Int → Int → Int × Int) {c c' : ParseContext} {ts rest : List Token}
    {nodes : List Node} (h : Reads c none ts nodes rest) (same : c'.grammar = c.grammar)
    (laid : Laid true 0 ts) : ∃ rest',
      Reads c' none (ts.map (Token.relocate place)) (nodes.map (Node.relocate place)) rest' := by
  obtain ⟨body, _, rfl, hEnding, hMoved⟩ := @reads_moved place _ _ _ _ _ _ _ _ h same laid (by simp)
  cases hEnding with
  | @input last kind =>
    have hBody : List.Forall₂ (Token.MovesTo place) body (body.map (Token.relocate place)) := by
      rw [List.forall₂_map_right_iff, List.forall₂_same]
      exact fun t _ => .inl rfl
    have hReads :=
      hMoved _ [last.relocate place] [last.relocate place] [] hBody fun _ _ => .eof kind
    rw [List.append_nil] at hReads
    rw [List.map_append]
    exact ⟨_, hReads⟩

/-- **Scripts in a row.** Where two texts parse, so does the one behind the other, unless they indent
with different characters or the first stops within a line. The script has the items of both, and
those of the second stand as many lines further down as the first text has. -/
theorem ofText_append_items {g : Grammar} {first second : String} {s s' : Script}
    (hFirst : Script.ofText g first = .ok s) (hSecond : Script.ofText g second = .ok s')
    (ended : first = "" ∨ ∃ front, first = front ++ "\n")
    (notTabbed : ¬ (Indents first ' ' ∧ Indents second '\t'))
    (notSpaced : ¬ (Indents first '\t' ∧ Indents second ' ')) :
    Script.ofText g (first ++ second) =
      .ok ⟨s.items ++ s'.items.map (Node.relocate (downBy (first.toList.count '\n')))⟩ := by
  obtain ⟨ts, rest, hTokens, hReads⟩ := reads_of_ofText hFirst
  obtain ⟨ts', rest', hTokens', hReads'⟩ := reads_of_ofText hSecond
  have hEnded : first = "" ∨ first.toList.getLast? = some '\n' := by
    refine ended.imp_right ?_
    rintro ⟨front, rfl⟩
    simp
  obtain ⟨body, body', last, rfl, hLast, hMoves, hAll⟩ :=
    ofText_append hTokens hTokens' hEnded (not_indent_of_reads hReads') fun a c ha hc =>
      alike_of_indents hTokens hTokens' notTabbed notSpaced ha hc
  let c' : ParseContext := ⟨g, Script.quotableLines (first ++ second)⟩
  obtain ⟨rest'', hNext⟩ := reads_relocate (downBy (first.toList.count '\n'))
    hReads' (show c'.grammar = g from rfl) (laid_of_ofText hTokens')
  have hItems := reads_in_front hReads (show c'.grammar = g from rfl) (laid_of_ofText hTokens)
    hMoves hNext
  have hHere : s.items.map (Node.relocate (downBy 0)) = s.items :=
    List.map_id'' Node.relocate_downBy_zero s.items
  rw [hHere] at hItems
  exact ofText_of_reads hAll hItems

theorem ofText_append_open_chain :
    ∃ s s', Script.ofText .builtin "CHAIN:\n  SEARCH: \"tea\"\n" = .ok s ∧
      Script.ofText .builtin "# pots\nCHAIN:\n    SEARCH: \"pot\"" = .ok s' ∧
      Script.ofText .builtin ("CHAIN:\n  SEARCH: \"tea\"\n" ++
        "# pots\nCHAIN:\n    SEARCH: \"pot\"") =
        .ok ⟨s.items ++ s'.items.map (Node.relocate (downBy 2))⟩ := by
  generalize hFirstText : "CHAIN:\n  SEARCH: \"tea\"\n" = first
  generalize hSecondText : "# pots\nCHAIN:\n    SEARCH: \"pot\"" = second
  have hParsed : (Script.ofText .builtin first).toOption.isSome = true ∧
      (Script.ofText .builtin second).toOption.isSome = true := by
    subst hFirstText hSecondText
    decide +kernel
  have hSpaces : ¬ Indents first '\t' ∧ ¬ Indents second '\t' := by
    subst hFirstText hSecondText
    decide +kernel
  have hLines : first.toList.count '\n' = 2 := by
    subst hFirstText
    decide +kernel
  obtain ⟨s, hFirst⟩ := Upshot.exists_of_isSome hParsed.1
  obtain ⟨s', hSecond⟩ := Upshot.exists_of_isSome hParsed.2
  have hEnded : first = "" ∨ ∃ front, first = front ++ "\n" :=
    .inr ⟨"CHAIN:\n  SEARCH: \"tea\"", hFirstText ▸ rfl⟩
  have hBoth := ofText_append_items hFirst hSecond hEnded (fun h => hSpaces.2 h.2)
    fun h => hSpaces.1 h.1
  rw [hLines] at hBoth
  exact ⟨s, s', hFirst, hSecond, hBoth⟩

end Directive
