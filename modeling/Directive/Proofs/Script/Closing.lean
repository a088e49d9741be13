import Directive.Proofs.Script.Failure

/-!
# Every chain closes its own block

* `ParseProblem.Arises`: the problems that a parser can have with the tokens of a text;
* `Trouble.OfLine`: what a line fails with;
* `Position.InLines`: a parse that goes through lines knows whether a block is open;
* `balanced_of_reads`: what is read of a block closes every block that is opened in it;
* `bracketed_ofText`: so a chain takes its own dedent, none is left over, and none is without steps.
-/

namespace Directive

open ParseContext

/-! ### Problems -/

/-- Problems other than a dedent where no block is open and a block without steps. -/
def ParseProblem.Arises : ParseProblem → Prop
  | .strayDedent => False
  | .chainWithoutSteps => False
  | .said _ => False
  | _ => True

theorem append_ne_of_front {front back s : String} (h : ¬ front.toList <+: s.toList) :
    front ++ back ≠ s := by
  rintro rfl
  exact h ⟨back.toList, by simp⟩

theorem append_ne_of_back {front back s : String} (h : ¬ back.toList <:+ s.toList) :
    front ++ back ≠ s := by
  rintro rfl
  exact h ⟨front.toList, by simp⟩

/-- No other problem has the message of one of these. -/
theorem ParseProblem.message_ne {p : ParseProblem} (h : p.Arises) :
    p.message ≠ "Unexpected dedent" ∧ p.message ≠ "CHAIN block has no steps" := by
  have hSuffix {front back : String} (h : ¬ back.toList <:+ "Unexpected dedent".toList)
      (h' : ¬ back.toList <:+ "CHAIN block has no steps".toList) :
      front ++ back ≠ "Unexpected dedent" ∧ front ++ back ≠ "CHAIN block has no steps" :=
    ⟨append_ne_of_back h, append_ne_of_back h'⟩
  cases p with
  | strayDedent => cases h
  | chainWithoutSteps => cases h
  | said => cases h
  | strayIndent => exact ⟨by decide, by decide⟩
  | strayIndentInChain => exact ⟨by decide, by decide⟩
  | chainWithInput => exact ⟨by decide, by decide⟩
  | chainWithoutBlock => exact ⟨by decide, by decide⟩
  | noHeader => exact ⟨append_ne_of_front (by decide), append_ne_of_front (by decide)⟩
  | unknownCommand name suggestion =>
    cases suggestion <;> exact hSuffix (by decide) (by decide)
  | noColon => exact hSuffix (by decide) (by decide)
  | noInput => exact hSuffix (by decide) (by decide)
  | textAfterInput => exact hSuffix (by decide) (by decide)
  | referenceOutsideChain => exact hSuffix (by decide) (by decide)
  | referenceInFirstStep => exact hSuffix (by decide) (by decide)
  | noValue => exact hSuffix (by decide) (by decide)
  | blankValue => exact hSuffix (by decide) (by decide)
  | unexpected => exact hSuffix (by decide) (by decide)

/-- A fault of a line. -/
def Trouble.Arises (t : Trouble) : Prop :=
  (∃ p, t = .parse p ∧ p.Arises) ∨ t.name = "ValidationError"

theorem Trouble.message_ne {t : Trouble} (h : t.Arises) :
    t.message ≠ "Unexpected dedent" ∧ t.message ≠ "CHAIN block has no steps" := by
  obtain ⟨p, rfl, hArises⟩ | hName := h
  · exact ParseProblem.message_ne hArises
  · cases t with
    | invalid command key value domain objection =>
      have hDedent : ¬ "Invalid modifier '--".toList <+: "Unexpected dedent".toList := by decide
      have hChain : ¬ "Invalid modifier '--".toList <+: "CHAIN block has no steps".toList := by
        decide
      unfold Trouble.message
      generalize objection.text value = reason
      simp only [String.append_assoc]
      exact ⟨append_ne_of_front hDedent, append_ne_of_front hChain⟩
    | _ => simp [Trouble.name] at hName

/-- What a line fails with: the parser has a problem with it, or the schema of a command objects to a
modifier. -/
inductive Trouble.OfLine (g : Grammar) : Trouble → Prop
  | problem {p : ParseProblem} (arises : p.Arises) : OfLine g (.parse p)
  | modifier {name key : String} {schema : Schema} {value : Setting} {t : Trouble}
      (known : g.find? name = some schema) (objects : schema.Objects key value t) : OfLine g t

theorem Trouble.OfLine.arises {g : Grammar} {t : Trouble} (h : t.OfLine g) : t.Arises := by
  cases h with
  | problem arises => exact .inl ⟨_, rfl, arises⟩
  | modifier _ objects => exact .inr objects.name_eq.1

namespace ParseContext

variable {c : ParseContext} {step : Option Nat} {ts rest : List Token} {e : Stop}

theorem ofLine_stop {α : Type} {p : ParseProblem} {t : Token}
    (h : (c.stop p t rest : Except Stop α) = .error e) (hp : p.Arises) :
    e.fault.trouble.OfLine c.grammar := by
  cases h
  exact .problem hp

theorem ofLine_takeInput (h : c.takeInput step ts = .error e) : e.fault.trouble.OfLine c.grammar := by
  unfold takeInput at h
  dsimp only at h
  split at h
  · split at h
    · split at h
      · split at h
        · exact ofLine_stop h trivial
        · exact ofLine_stop h trivial
        · cases h
      · cases h
    · cases h
  · split at h
    · exact ofLine_stop h trivial
    · cases h

theorem ofLine_takeWritten (h : c.takeWritten ts = .error e) : e.fault.trouble.OfLine c.grammar := by
  fun_induction takeWritten c ts with
  | case1 => cases h
  | case2 => exact ofLine_stop h trivial
  | case3 => cases h
  | case4 _ _ _ _ _ _ _ hMore ih =>
    cases h
    exact ih hMore
  | case5 => exact ofLine_stop h trivial
  | case6 => exact ofLine_stop h trivial
  | case7 => cases h

theorem ofLine_takeModifiers {schema : Schema} {name command : String}
    (known : c.grammar.find? name = some schema)
    (h : c.takeModifiers schema command ts = .error e) : e.fault.trouble.OfLine c.grammar := by
  rcases error_of_takeModifiers h with hWritten | ⟨_, _, _, _, _, -, -, blames, rfl⟩
  · exact ofLine_takeWritten hWritten
  · exact .modifier known blames.objects

theorem ofLine_takeLineEnd {command : String} (h : c.takeLineEnd command ts = .error e) :
    e.fault.trouble.OfLine c.grammar := by
  unfold takeLineEnd at h
  split at h
  · cases h
  · cases h
  · exact ofLine_stop h trivial

theorem ofLine_takeName (h : c.takeName ts = .error e) : e.fault.trouble.OfLine c.grammar := by
  unfold takeName at h
  dsimp only at h
  split at h
  · split at h
    · exact ofLine_stop h trivial
    · split at h
      · cases h
      · exact ofLine_stop h trivial
  · exact ofLine_stop h trivial

theorem ofLine_takeChainStart {header : Token} {schema : Schema} {slot : Option String}
    (known : c.grammar.find? header.text = some schema)
    (h : c.takeChainStart header schema slot ts = .error e) : e.fault.trouble.OfLine c.grammar := by
  unfold takeChainStart at h
  dsimp only at h
  split at h
  · exact ofLine_stop h trivial
  obtain h | ⟨_, -, h⟩ := error_of_bind h
  · exact ofLine_takeModifiers known h
  obtain h | ⟨_, -, h⟩ := error_of_bind h
  · exact ofLine_takeLineEnd h
  split at h
  · cases h
  · exact ofLine_stop h trivial

theorem ofLine_takeCommand {header : Token} {schema : Schema} {slot : Option String}
    (known : c.grammar.find? header.text = some schema)
    (h : c.takeCommand header schema slot step ts = .error e) : e.fault.trouble.OfLine c.grammar := by
  unfold takeCommand at h
  obtain h | ⟨_, -, h⟩ := error_of_bind h
  · exact ofLine_takeInput h
  dsimp only at h
  split at h
  · exact ofLine_stop h trivial
  obtain h | ⟨_, -, h⟩ := error_of_bind h
  · exact ofLine_takeModifiers known h
  obtain h | ⟨_, -, h⟩ := error_of_bind h
  · exact ofLine_takeLineEnd h
  · cases h

theorem ofLine_takeHeading (h : c.takeHeading step ts = .error e) : e.fault.trouble.OfLine c.grammar := by
  unfold takeHeading at h
  split at h
  · rename_i hName
    cases h
    exact ofLine_takeName hName
  · rename_i header schema rest hName
    obtain ⟨_, _, _, _, known⟩ := name_of_takeName hName
    dsimp only at h
    split at h
    · exact ofLine_takeChainStart known h
    · exact ofLine_takeCommand known h

/-! ### Blocks -/

/-- The line of a chain reaches up to the indent of its first step, which stands right behind it. -/
theorem chainStart_of_laid {opens : Bool} {depth : Nat} {after : List Token} {header : Token}
    {slot : Option String} (laid : Laid opens depth ts)
    (h : c.takeHeading step ts = .ok (.chain header slot, after)) :
    ∃ line lineEnd indent, ts = line ++ lineEnd :: indent :: after ∧ Written line ∧
      lineEnd.kind = .newline ∧ indent.kind = .indent ∧ Laid true (depth + 1) after ∧
      ∀ t ∈ after.head?, t.kind.isLayout = false := by
  obtain ⟨colon, lineEnd, indent, schema, written, rfl, hName, -, -, hColon, hWellFormed, -, hEnd,
    hIndent, -⟩ := chainLine_of_takeHeading h
  have hLine := written_heading hName hColon (written_modifiers hWellFormed)
  have hFollows := laid.isChain
  rw [← List.cons_append, ← List.cons_append] at laid hFollows ⊢
  have hBlock := laid.behind_line (by simp) hLine hEnd
  refine ⟨_, lineEnd, indent, rfl, hLine, hEnd, hIndent, hBlock.of_indent hIndent, ?_⟩
  intro t ht
  obtain ⟨rest, rfl⟩ := List.head?_eq_some_iff.mp ht
  have hBehind := hFollows.right_of_append.tail
  exact hBehind.rel.indented hIndent

/-- A block without steps does not begin with a step. -/
theorem layout_of_reads_nil {k : Nat} (h : Reads c (some k) ts [] rest) :
    ts = [] ∨ ∃ t ∈ ts.head?, t.kind.isLayout = true := by
  generalize hStep : some k = step, hNodes : ([] : List Node) = nodes at h
  cases h with
  | nothing => exact .inl rfl
  | eof kind => exact .inr ⟨_, rfl, by rw [kind]; rfl⟩
  | newline kind => exact .inr ⟨_, rfl, by rw [kind]; rfl⟩
  | dedent kind => exact .inr ⟨_, rfl, by rw [kind]; rfl⟩
  | command => cases hNodes
  | chain => cases hNodes

/-- Where the tokens are in lines, every chain has steps. -/
theorem steps_ne_nil_of_laid {opens : Bool} {depth : Nat} {after after' : List Token}
    {header : Token} {slot : Option String} {steps : List Node} (laid : Laid opens depth ts)
    (heading : c.takeHeading step ts = .ok (.chain header slot, after))
    (inner : Reads c (some 0) after steps after') : steps ≠ [] := by
  rintro rfl
  obtain ⟨_, _, _, -, -, -, -, hBlock, hFirst⟩ := chainStart_of_laid laid heading
  obtain rfl | ⟨t, ht, hLayout⟩ := layout_of_reads_nil inner
  · exact absurd rfl hBlock.ne_nil
  · rw [hFirst t ht] at hLayout
    cases hLayout

/-- What is read of a block closes every block that is opened in it. Then the block itself ends. -/
theorem balanced_of_reads {opens : Bool} {depth : Nat} {nodes : List Node}
    (h : Reads c step ts nodes rest) (laid : Laid opens depth ts)
    (level : step = none ↔ depth = 0) :
    ∃ body ending, ts = body ++ ending ∧ Balanced body ∧ BlockEnd step depth ending rest := by
  induction h generalizing opens depth with
  | nothing => exact absurd rfl laid.ne_nil
  | eof kind =>
    obtain ⟨rfl, rfl⟩ := laid.of_eof kind
    rw [level.mpr rfl]
    exact ⟨[], _, rfl, .nil, .input kind⟩
  | newline kind => exact absurd kind laid.not_newline
  | dedent kind =>
    obtain ⟨outer, rfl, hRest⟩ := laid.of_dedent kind
    exact ⟨[], _, rfl, .nil, .chain kind hRest⟩
  | command heading _ ih =>
    obtain ⟨line, lineEnd, hLine, hEnd, rfl⟩ := commandLine_of_laid laid heading
    obtain ⟨nonempty, written⟩ := hLine.written
    have hRest := laid.behind_line nonempty written hEnd
    obtain ⟨body, ending, rfl, balanced, hEnding⟩ := ih hRest (by simpa using level)
    have hBody := (Balanced.line written hEnd).append balanced
    exact ⟨_, ending, by simp, hBody, hEnding.of_next⟩
  | chain heading _ _ _ ihInner ihMore =>
    obtain ⟨line, lineEnd, indent, rfl, written, hEnd, hIndent, hBlock, -⟩ :=
      chainStart_of_laid laid heading
    obtain ⟨inside, ending, rfl, inner, hInnerEnd⟩ := ihInner hBlock (by simp)
    cases hInnerEnd with
    | chain hDedent hAfter =>
      obtain ⟨body, ending, rfl, balanced, hEnding⟩ := ihMore hAfter (by simpa using level)
      have hBody := (Balanced.line written hEnd).append
        ((Balanced.block hIndent hDedent inner).append balanced)
      exact ⟨_, ending, by simp, hBody, hEnding.of_next⟩

/-- The tokens ahead are in lines, and a block is open just where the steps of a chain are read. -/
def Position.InLines (p : Position) : Prop :=
  ∃ opens depth, Laid opens depth p.ahead ∧ (p.step = none ↔ depth = 0)

theorem Position.InLines.proceeds {p q : Position} (h : Proceeds c p q) (lines : p.InLines) :
    q.InLines := by
  obtain ⟨opens, depth, laid, level⟩ := lines
  cases h with
  | newline kind => exact absurd kind laid.not_newline
  | command heading =>
    obtain ⟨line, lineEnd, hLine, hEnd, rfl⟩ := commandLine_of_laid laid heading
    obtain ⟨nonempty, written⟩ := hLine.written
    have hRest := laid.behind_line nonempty written hEnd
    exact ⟨true, depth, hRest, by simpa using level⟩
  | inside heading =>
    obtain ⟨_, _, _, _, _, _, _, hBlock, -⟩ := chainStart_of_laid laid heading
    exact ⟨true, depth + 1, hBlock, by simp⟩
  | behind heading inner =>
    obtain ⟨_, _, _, _, _, _, _, hBlock, -⟩ := chainStart_of_laid laid heading
    obtain ⟨_, ending, -, -, hEnd⟩ := balanced_of_reads inner hBlock (by simp)
    cases hEnd with
    | chain _ hAfter => exact ⟨false, depth, hAfter, by simpa using level⟩

/-- Where the tokens are in lines, a parse fails at what stands on a line, or at an indent. -/
theorem ofLine_of_failsAt {p : Position} (h : FailsAt c p e) (lines : p.InLines) :
    e.fault.trouble.OfLine c.grammar := by
  obtain ⟨opens, depth, laid, level⟩ := lines
  cases h with
  | dedent kind =>
    obtain ⟨outer, rfl, -⟩ := laid.of_dedent kind
    exact absurd (level.mp rfl) (Nat.succ_ne_zero outer)
  | @indent step =>
    cases step with
    | none => exact .problem trivial
    | some k => exact .problem trivial
  | heading fails => exact ofLine_takeHeading fails
  | noSteps heading inner => exact absurd rfl (steps_ne_nil_of_laid laid heading inner)

theorem arises_of_failsAt {p : Position} (h : FailsAt c p e) (lines : p.InLines) :
    e.fault.trouble.Arises :=
  (ofLine_of_failsAt h lines).arises

theorem inLines_of_visits {p : Position} {tokens : List Token} (laid : Laid true 0 tokens)
    (h : Visits c ⟨none, tokens⟩ p) : p.InLines :=
  h.preserves ⟨true, 0, laid, by simp⟩ .proceeds

end ParseContext

/-- **Layout tokens are brackets around lines, and a parse goes by them.** A parse of the tokens of a
text never comes to a dedent where no block is open, nor to a block without steps. Every chain that it
comes to, and reads the steps of, takes up to its own dedent. -/
theorem bracketed_ofText {text : String} {ts : List Token} (tokens : Token.ofText text = .ok ts) :
    Bracketed ts ∧ ∀ (g : Grammar) (lines : List String),
      (∀ e, Script.ofTokens g lines ts = .error e →
        e.fault.message ≠ "Unexpected dedent" ∧ e.fault.message ≠ "CHAIN block has no steps") ∧
      ∀ (p : Position) (header : Token) (slot : Option String) (after rest : List Token)
        (steps : List Node), Visits ⟨g, lines⟩ ⟨none, ts⟩ p →
        takeHeading ⟨g, lines⟩ p.step p.ahead = .ok (.chain header slot, after) →
        nodesOf ⟨g, lines⟩ (some 0) after = .ok (steps, rest) →
        steps ≠ [] ∧ ∃ line indent body dedent, p.ahead = line ++ indent :: after ∧
          after = body ++ dedent :: rest ∧ indent.kind = .indent ∧ dedent.kind = .dedent ∧
          Balanced body := by
  have hLaid := laid_of_ofText tokens
  refine ⟨bracketed_of_laid hLaid, fun g lines => ⟨?_, ?_⟩⟩
  · intro e hFails
    obtain ⟨p, hVisits, hFailsAt⟩ := visits_of_error (Script.nodesOf_of_ofTokens_error hFails)
    exact Trouble.message_ne (arises_of_failsAt hFailsAt (inLines_of_visits hLaid hVisits))
  · intro p header slot after rest steps hVisits hHeading hSteps
    have hReads := reads_of_nodesOf hSteps
    obtain ⟨opens, depth, laid, level⟩ := inLines_of_visits hLaid hVisits
    obtain ⟨line, lineEnd, indent, hAhead, -, -, hIndent, hBlock, hFirst⟩ :=
      chainStart_of_laid laid hHeading
    obtain ⟨body, ending, rfl, balanced, hEnding⟩ := balanced_of_reads hReads hBlock (by simp)
    cases hEnding with
    | @chain _ _ dedent _ hDedent hAfter =>
      refine ⟨?_, line ++ [lineEnd], indent, body, dedent, ?_, rfl, hIndent, hDedent, balanced⟩
      · rintro rfl
        obtain hNil | ⟨t, ht, hLayout⟩ := layout_of_reads_nil hReads
        · exact absurd hNil hBlock.ne_nil
        · rw [hFirst t ht] at hLayout
          cases hLayout
      · rw [hAhead, List.append_assoc]
        rfl

theorem bracketed_of_nested_chains :
    ∃ ts header slot after steps rest body dedent, Token.ofText
        "CHAIN:\n  SEARCH: \"tea\"\n  CHAIN:\n    SEARCH: \"pot\"\nSEARCH: \"cup\"\n" = .ok ts ∧
      Bracketed ts ∧ takeHeading ⟨.builtin, []⟩ none ts = .ok (.chain header slot, after) ∧
      nodesOf ⟨.builtin, []⟩ (some 0) after = .ok (steps, rest) ∧ steps.length = 2 ∧
      after = body ++ dedent :: rest ∧ dedent.kind = .dedent ∧ Balanced body := by
  generalize hText :
    "CHAIN:\n  SEARCH: \"tea\"\n  CHAIN:\n    SEARCH: \"pot\"\nSEARCH: \"cup\"\n" = text
  have hSteps : ((Token.ofText text).toOption.bind fun ts =>
      (takeHeading ⟨.builtin, []⟩ none ts).toOption.bind fun p =>
        match p with
        | (.chain _ _, after) =>
          (nodesOf ⟨.builtin, []⟩ (some 0) after).toOption.map fun q => q.1.length
        | _ => none) = some 2 := by
    subst hText
    decide +kernel
  obtain ⟨ts, hTokens, hChain⟩ := Upshot.exists_of_bind hSteps
  rcases hHeading : takeHeading ⟨.builtin, []⟩ none ts with e | ⟨heading, after⟩
  · simp [hHeading, Except.toOption] at hChain
  cases heading with
  | command i => simp [hHeading, Except.toOption] at hChain
  | chain header slot =>
    rcases hNodes : nodesOf ⟨.builtin, []⟩ (some 0) after with e | ⟨steps, rest⟩
    · simp [hHeading, hNodes, Except.toOption] at hChain
    · obtain ⟨hBracketed, hParse⟩ := bracketed_ofText hTokens
      obtain ⟨-, _, _, body, dedent, -, hAfter, -, hDedent, hBalanced⟩ :=
        (hParse .builtin []).2 ⟨none, ts⟩ header slot after rest steps .refl hHeading hNodes
      refine ⟨ts, header, slot, after, steps, rest, body, dedent, hTokens, hBracketed, hHeading,
        hNodes, ?_, hAfter, hDedent, hBalanced⟩
      simpa [hHeading, hNodes, Except.toOption] using hChain

end Directive
