import Directive.Proofs.Script.Objection
import Directive.Proofs.Script.Reading
import Directive.Proofs.Script.Recognition
import Directive.Proofs.Token.Brackets
import Directive.Proofs.Token.Progress

/-!
# Where a parse fails

* `Ahead`: the tokens that a parse has not taken yet;
* `Stop.StandsAt`: a fault at one of the tokens;
* `standsAt_nodesOf`: every fault of a parse is like that;
* `ofText_of_error`: so every fault of a text points into it;
* `ofText_ok_or_fault_iff`: a text is a script or has a fault, unless scanning it never ends.
-/

namespace Directive

open ParseContext

/-- Tokens at the end of others, up to the end of the input. -/
structure Ahead (all ts : List Token) : Prop where
  suffix : ts <:+ all
  ended : ∃ last ∈ ts.getLast?, last.kind = .eof

namespace Ahead

variable {all ts taken : List Token} {t : Token}

theorem frontToken_mem (h : Ahead all ts) : frontToken ts ∈ all := by
  cases ts with
  | nil =>
    obtain ⟨last, hLast, -⟩ := h.ended
    cases hLast
  | cons t ts => exact h.suffix.subset List.mem_cons_self

theorem tail (h : Ahead all (t :: ts)) (more : t.kind ≠ .eof) : Ahead all ts := by
  obtain ⟨last, hLast, hEof⟩ := h.ended
  refine ⟨(List.suffix_cons t ts).trans h.suffix, last, ?_, hEof⟩
  cases ts with
  | nil =>
    cases hLast
    exact absurd hEof more
  | cons u ts => exact hLast

theorem drop (h : Ahead all (taken ++ ts)) (more : ∀ t ∈ taken, t.kind ≠ .eof) :
    Ahead all ts := by
  induction taken with
  | nil => exact h
  | cons t taken ih =>
    exact ih (h.tail (more t List.mem_cons_self)) fun u hu => more u (List.mem_cons_of_mem t hu)

theorem drop_one (h : Ahead all ts) (more : nextKind ts ≠ .eof) : Ahead all (ts.drop 1) := by
  cases ts with
  | nil => exact absurd rfl more
  | cons t ts => exact h.tail more

end Ahead

theorem Written.ne_eof {ts : List Token} (h : Written ts) : ∀ t ∈ ts, t.kind ≠ .eof := by
  intro t ht hKind
  simpa [hKind, TokenKind.isLayout] using h t ht

/-- A fault of the parser or of a modifier, at one of the tokens. -/
structure Stop.StandsAt (c : ParseContext) (all : List Token) (e : Stop) : Prop where
  place : ∃ t ∈ all, ∃ command, e.fault.place = c.placeOf t command
  name : e.fault.trouble.name = "ParseError" ∨ e.fault.trouble.name = "ValidationError"

namespace ParseContext

variable {c : ParseContext} {all ts rest : List Token} {e : Stop} {step : Option Nat}

theorem standsAt_stop {α : Type} {p : ParseProblem} {t : Token} {ahead : List Token} (ht : t ∈ all)
    (h : (c.stop p t ahead : Except Stop α) = .error e) : e.StandsAt c all := by
  cases h
  exact ⟨⟨t, ht, none, rfl⟩, .inl rfl⟩

theorem ahead_takeStrings (ahead : Ahead all ts) : Ahead all (takeStrings ts).2 := by
  obtain ⟨strings, hSplit, -, hKinds⟩ := takeStrings_spec ts
  rw [hSplit] at ahead
  exact ahead.drop fun t ht hKind => by
    simpa [hKind, TokenKind.isString] using hKinds t ht

theorem standsAt_takeInput (ahead : Ahead all ts) (h : c.takeInput step ts = .error e) :
    e.StandsAt c all := by
  have hRest := ahead_takeStrings ahead
  have hFront := ahead.frontToken_mem
  unfold takeInput at h
  split at h
  · split at h
    · split at h
      · split at h
        · exact standsAt_stop hFront h
        · exact standsAt_stop hFront h
        · cases h
      · cases h
    · cases h
  · rename_i hTaken
    rw [hTaken] at hRest
    dsimp only at h
    split at h
    · exact standsAt_stop hRest.frontToken_mem h
    · cases h

theorem standsAt_takeWritten (ahead : Ahead all ts) (h : c.takeWritten ts = .error e) :
    e.StandsAt c all := by
  have hFront := ahead.frontToken_mem
  fun_induction takeWritten c ts with
  | case1 => cases h
  | case2 key hKey value rest hValue hBlank =>
    exact standsAt_stop (ahead.tail (by simp [hKey])).frontToken_mem h
  | case3 => cases h
  | case4 key hKey value rest hValue hBlank e' hMore ih =>
    cases h
    have hRest := (ahead.tail (by simp [hKey])).tail (by simp [hValue])
    exact ih hRest hMore hRest.frontToken_mem
  | case5 key hKey value rest hValue => exact standsAt_stop hFront h
  | case6 key hKey => exact standsAt_stop hFront h
  | case7 => cases h

theorem keys_of_takeWritten {written : List WrittenModifier} (ahead : Ahead all ts)
    (h : c.takeWritten ts = .ok (written, rest)) : ∀ w ∈ written, w.key ∈ all := by
  obtain ⟨rfl, -⟩ := written_of_takeWritten h
  intro w hw
  refine ahead.suffix.subset (List.mem_append_left _ (List.mem_flatMap.mpr ⟨w, hw, ?_⟩))
  exact List.mem_cons_self

theorem standsAt_takeModifiers {schema : Schema} {command : String} (ahead : Ahead all ts)
    (h : c.takeModifiers schema command ts = .error e) : e.StandsAt c all := by
  rcases error_of_takeModifiers h with
    hWritten | ⟨earlier, w, later, rest, trouble, hWritten, -, blames, rfl⟩
  · exact standsAt_takeWritten ahead hWritten
  · have hKey := keys_of_takeWritten ahead hWritten w (by simp)
    exact ⟨⟨w.key, hKey, some command, rfl⟩, .inr blames.objects.name_eq.1⟩

theorem standsAt_takeLineEnd {command : String} (ahead : Ahead all ts)
    (h : c.takeLineEnd command ts = .error e) : e.StandsAt c all := by
  unfold takeLineEnd at h
  split at h
  · cases h
  · cases h
  · exact standsAt_stop ahead.frontToken_mem h

theorem standsAt_takeName (ahead : Ahead all ts) (h : c.takeName ts = .error e) :
    e.StandsAt c all := by
  unfold takeName at h
  dsimp only at h
  split at h
  · rename_i hName
    split at h
    · exact standsAt_stop ahead.frontToken_mem h
    · split at h
      · cases h
      · exact standsAt_stop (ahead.drop_one (by simp [nextKind, hName])).frontToken_mem h
  · exact standsAt_stop ahead.frontToken_mem h

theorem ahead_takeModifiers {schema : Schema} {command : String} {modifiers : Table Setting}
    (ahead : Ahead all ts) (h : c.takeModifiers schema command ts = .ok (modifiers, rest)) :
    Ahead all rest := by
  obtain ⟨written, rfl, hWellFormed, -⟩ := written_of_takeModifiers h
  exact ahead.drop (written_modifiers hWellFormed).ne_eof

theorem standsAt_takeChainStart {header : Token} {schema : Schema} {slot : Option String}
    (hHeader : header ∈ all) (ahead : Ahead all ts)
    (h : c.takeChainStart header schema slot ts = .error e) : e.StandsAt c all := by
  unfold takeChainStart at h
  dsimp only at h
  split at h
  · exact standsAt_stop ahead.frontToken_mem h
  obtain h | ⟨⟨modifiers, rest⟩, hModifiers, h⟩ := error_of_bind h
  · exact standsAt_takeModifiers ahead h
  have hRest := ahead_takeModifiers ahead hModifiers
  obtain h | ⟨after, -, h⟩ := error_of_bind h
  · exact standsAt_takeLineEnd hRest h
  split at h
  · cases h
  · exact standsAt_stop hHeader h

theorem standsAt_takeCommand {header : Token} {schema : Schema} {slot : Option String}
    (ahead : Ahead all ts) (h : c.takeCommand header schema slot step ts = .error e) :
    e.StandsAt c all := by
  unfold takeCommand at h
  obtain hFails | ⟨⟨input, rest⟩, hInput, hFails⟩ := error_of_bind h
  · exact standsAt_takeInput ahead hFails
  clear h
  obtain ⟨taken, rfl, hTaken⟩ := inputTokens_of_takeInput hInput
  have hRest := ahead.drop hTaken.written.ne_eof
  dsimp only at hFails
  split at hFails
  · exact standsAt_stop hRest.frontToken_mem hFails
  obtain hFails | ⟨⟨modifiers, rest'⟩, hModifiers, hFails⟩ := error_of_bind hFails
  · exact standsAt_takeModifiers hRest hFails
  obtain hFails | ⟨after, -, hFails⟩ := error_of_bind hFails
  · exact standsAt_takeLineEnd (ahead_takeModifiers hRest hModifiers) hFails
  · cases hFails

theorem standsAt_takeHeading (ahead : Ahead all ts) (h : c.takeHeading step ts = .error e) :
    e.StandsAt c all := by
  unfold takeHeading at h
  split at h
  · rename_i hName
    cases h
    exact standsAt_takeName ahead hName
  · rename_i header schema rest hName
    obtain ⟨colon, rfl, hKind, hColon, -⟩ := name_of_takeName hName
    have hRest := (ahead.tail (by simp [hKind])).tail (by simp [hColon])
    dsimp only at h
    split at h
    · exact standsAt_takeChainStart ahead.frontToken_mem hRest h
    · exact standsAt_takeCommand hRest h

/-- What a line takes is no end of the input. -/
theorem ahead_takeHeading {heading : Heading} (ahead : Ahead all ts)
    (h : c.takeHeading step ts = .ok (heading, rest)) : Ahead all rest := by
  cases heading with
  | command i =>
    obtain ⟨line, hLine, ⟨lineEnd, hEnd, rfl⟩ | ⟨-, rfl⟩⟩ := commandLine_of_takeHeading h
    · exact (ahead.drop hLine.written.2.ne_eof).tail (by simp [hEnd])
    · exact ahead.drop hLine.written.2.ne_eof
  | chain header slot =>
    obtain ⟨colon, lineEnd, indent, schema, written, rfl, hName, -, -, hColon, hWellFormed, -, hEnd,
      hIndent, -⟩ := chainLine_of_takeHeading h
    have hLine := written_heading hName hColon (written_modifiers hWellFormed)
    rw [← List.cons_append, ← List.cons_append] at ahead
    exact ((ahead.drop hLine.ne_eof).tail (by simp [hEnd])).tail (by simp [hIndent])

theorem ahead_of_reads {nodes : List Node} (h : Reads c step ts nodes rest)
    (ahead : Ahead all ts) : Ahead all rest := by
  induction h with
  | nothing => exact ahead
  | eof _ => exact ahead
  | newline kind _ ih => exact ih (ahead.tail (by simp [kind]))
  | dedent kind => exact ahead.tail (by simp [kind])
  | command heading _ ih => exact ih (ahead_takeHeading ahead heading)
  | chain heading _ _ _ ihInner ihMore => exact ihMore (ihInner (ahead_takeHeading ahead heading))

theorem ahead_of_proceeds {p q : Position} (h : Proceeds c p q) (ahead : Ahead all p.ahead) :
    Ahead all q.ahead := by
  cases h with
  | newline kind => exact ahead.tail (by simp [kind])
  | command heading => exact ahead_takeHeading ahead heading
  | inside heading => exact ahead_takeHeading ahead heading
  | behind heading inner => exact ahead_of_reads inner (ahead_takeHeading ahead heading)

theorem standsAt_of_failsAt {p : Position} (h : FailsAt c p e) (ahead : Ahead all p.ahead) :
    e.StandsAt c all := by
  have hFront := ahead.frontToken_mem
  cases h with
  | dedent => exact standsAt_stop (α := Unit) hFront rfl
  | indent => exact standsAt_stop (α := Unit) hFront rfl
  | heading fails => exact standsAt_takeHeading ahead fails
  | noSteps heading =>
    obtain ⟨_, _, _, _, _, hTokens, -⟩ := chainLine_of_takeHeading heading
    cases hTokens
    exact standsAt_stop (α := Unit) hFront rfl

/-- Every fault of a parse stands at one of the tokens. -/
theorem standsAt_nodesOf (ahead : Ahead all ts) (h : c.nodesOf step ts = .error e) :
    e.StandsAt c all := by
  obtain ⟨q, hVisits, hFails⟩ := visits_of_error h
  exact standsAt_of_failsAt hFails
    (hVisits.preserves (motive := fun p => Ahead all p.ahead) ahead ahead_of_proceeds)

end ParseContext

/-- Every list of tokens in lines ends with the end of the input. -/
theorem Laid.ended {opens : Bool} {depth : Nat} {ts : List Token} (h : Laid opens depth ts) :
    ∃ last ∈ ts.getLast?, last.kind = .eof := by
  obtain ⟨front, last, rfl, hEof, -⟩ := h.endsOnce
  exact ⟨last, by simp, hEof⟩

/-- What can be wrong with a text before anything is run, and where: on a line of the text, at the
character under which renderings put the caret. -/
structure Fault.OfText (f : Fault) (text : String) : Prop where
  name : f.trouble.name = "LexError" ∨ f.trouble.name = "ParseError" ∨
    f.trouble.name = "ValidationError"
  place : ∃ line n k, f.place.PointsAt text line n k ∧ Underlines (f.describe .developer) line k ∧
    ∀ file, Underlines ((Diagnostic.ofFault f).render .developer file) line k

theorem Fault.OfText.of_pointsInto {f : Fault} {text : String} (into : f.place.PointsInto text)
    (name : f.trouble.name = "LexError" ∨ f.trouble.name = "ParseError" ∨
      f.trouble.name = "ValidationError") : f.OfText text := by
  obtain ⟨line, n, k, hPoints⟩ := into
  exact ⟨name, line, n, k, hPoints, hPoints.underlines_describe, hPoints.underlines_render⟩

theorem ofText_empty (g : Grammar) : Script.ofText g "" = .ok ⟨[]⟩ := by
  have hTokens : Token.ofText "" = .ok [⟨.eof, "", 1, 1⟩] := by
    rw [Token.ofText, scanLines]
    rfl
  have hScript : Script.ofTokens g (Script.quotableLines "") [⟨.eof, "", 1, 1⟩] = .ok ⟨[]⟩ :=
    Script.ofTokens_eq_ok_iff.mpr ⟨_, .eof rfl⟩
  rw [Script.ofText, hTokens]
  dsimp only
  rw [hScript]
  rfl

theorem ofText_of_standsAt {c : ParseContext} {text : String} {ts : List Token} {e : Stop}
    (tokens : Token.ofText text = .ok ts) (lines : c.lines = Text.lines text)
    (h : e.StandsAt c ts) : e.fault.OfText text := by
  obtain ⟨⟨t, ht, command, hPlace⟩, hName⟩ := h
  obtain ⟨front, back, hSource, hLine, hColumn⟩ := (covers_of_ofText tokens).1.place ht
  have hInto : (Cursor.behind front back).Into (Text.joinLineEnds text.toList) :=
    ⟨front, hSource, rfl⟩
  refine .of_pointsInto ?_ (.inr hName)
  rw [hPlace, placeOf, lines, hLine, hColumn]
  exact hInto.pointsInto command

/-- What keeps a text from being a script points into it. -/
theorem ofText_of_error {g : Grammar} {text : String} {f : Fault}
    (h : Script.ofText g text = .error f) : f.OfText text := by
  by_cases hEmpty : text = ""
  · subst hEmpty
    rw [ofText_empty] at h
    cases h
  have hLines : Script.quotableLines text = Text.lines text :=
    if_neg (by simpa [String.isEmpty_iff] using hEmpty)
  unfold Script.ofText at h
  rw [hLines] at h
  rcases hTokens : Token.ofText text with f' | ts | _
  · rw [hTokens] at h
    cases h
    obtain ⟨hPoints, p, hProblem⟩ := pointsInto_of_ofText hTokens
    exact .of_pointsInto hPoints (.inl (by rw [hProblem]; rfl))
  · rw [hTokens] at h
    dsimp only at h
    rcases hScript : Script.ofTokens g (Text.lines text) ts with e | s
    · rw [hScript] at h
      cases h
      have hStands := standsAt_nodesOf ⟨List.suffix_refl ts, (laid_of_ofText hTokens).ended⟩
        (Script.nodesOf_of_ofTokens_error hScript)
      exact ofText_of_standsAt hTokens rfl hStands
    · rw [hScript] at h
      cases h
  · rw [hTokens] at h
    cases h

/-- Whatever the grammar, only the lexer can keep a text from being parsed to an end. -/
theorem script_eq_endless_iff {g : Grammar} {text : String} :
    Script.ofText g text = .endless ↔ ¬ ScanningEnds text := by
  rw [← tokens_eq_endless_iff]
  unfold Script.ofText
  rcases Token.ofText text with f | ts | _
  · simp
  · simp [Upshot.ofExcept_ne_endless]
  · simp

/-- **A text is a script, or a fault points into it, unless scanning it never ends.** Scanning ends for
every text without a stray blank. Where it does not end the text comes neither to a script nor to a
fault. -/
theorem ofText_ok_or_fault_iff (g : Grammar) (text : String) :
    ((∃ s, Script.ofText g text = .ok s) ∨
        (∃ f, Script.ofText g text = .error f ∧ f.OfText text) ↔ ScanningEnds text) ∧
      (∀ f, Script.ofText g text = .error f → f.OfText text) ∧
      (¬ HasStrayBlank text.toList → ScanningEnds text) := by
  refine ⟨?_, fun f => ofText_of_error, scanningEnds_of_plain⟩
  constructor
  · intro hSettled
    by_contra hNever
    have hStays := (script_eq_endless_iff (g := g)).mpr hNever
    rw [hStays] at hSettled
    obtain ⟨s, h⟩ | ⟨f, h, -⟩ := hSettled
    · cases h
    · cases h
  · intro hEnds
    rcases hText : Script.ofText g text with f | s | _
    · exact .inr ⟨f, rfl, ofText_of_error hText⟩
    · exact .inl ⟨s, rfl⟩
    · exact absurd hEnds (script_eq_endless_iff.mp hText)

/-- A hard space directly before a modifier: the lexer comes to it and stays there. -/
theorem not_ok_or_fault_of_hardSpace :
    HasStrayBlank "SEARCH: \"x\"\u00a0--limit=1".toList ∧
      ¬ ScanningEnds "SEARCH: \"x\"\u00a0--limit=1" ∧
      (∀ s, Script.ofText .builtin "SEARCH: \"x\"\u00a0--limit=1" ≠ .ok s) ∧
      ∀ f, Script.ofText .builtin "SEARCH: \"x\"\u00a0--limit=1" ≠ .error f := by
  generalize hText : "SEARCH: \"x\"\u00a0--limit=1" = text
  have hStray : HasStrayBlank text.toList := by
    subst hText
    decide +kernel
  have hScan : scanLines {} (.start (Text.joinLineEnds text.toList)) = .endless := by
    subst hText
    decide +kernel
  have hNever : ¬ ScanningEnds text := by
    rintro ⟨lines, rounds, result, hRounds⟩
    exact scanLines_eq_endless_iff.mp hScan lines rounds result hRounds
  have hStays : Script.ofText .builtin text = .endless := script_eq_endless_iff.mpr hNever
  rw [hStays]
  exact ⟨hStray, hNever, fun s => nofun, fun f => nofun⟩

end Directive
