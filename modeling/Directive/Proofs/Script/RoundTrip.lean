import Directive.Grammar.Builtin
import Directive.Proofs.Script.DraftLine
import Directive.Proofs.Script.Recognition
import Directive.Proofs.Token.Scan

/-!
# Written drafts are read back

* `enter_deeper`, `enter_back`: the blocks that a line opens or leaves;
* `scanned_of_allFit`: the lines of drafts are scanned as a block of the grammar;
* `ofText_writeAll`: a script that is written down is parsed to its tree.
-/

namespace Directive

namespace Layout

variable {l : Layout} {ch : Char}

theorem enter_deeper (uses : l.Uses ch) {w : Nat}
    (deeper : l.width < w) (line : Int) :
    ∃ inner, l.enter (List.replicate w ch) line =
        .ok (inner, [⟨.indent, String.ofList (List.replicate w ch), line, 1⟩]) ∧
      inner.widths = w :: l.widths ∧ inner.Uses ch := by
  obtain ⟨used, hUsed, hWidths, hUses⟩ := indentWith_replicate uses w
  refine ⟨{ used with widths := w :: used.widths }, ?_, by rw [hWidths], hUses⟩
  have hDeeper : used.width < w := by rwa [width, hWidths]
  simp only [enter, hUsed, List.length_replicate, if_pos hDeeper]

theorem enter_back (uses : l.Uses ch) {w : Nat}
    {extra base : List Nat} (widths : l.widths = extra ++ base) (beyond : ∀ x ∈ extra, w < x)
    (level : base.headD 0 = w) (line : Int) :
    ∃ inner, l.enter (List.replicate w ch) line =
        .ok (inner, extra.map fun _ => ⟨.dedent, "", line, 1⟩) ∧
      inner.widths = base ∧ inner.Uses ch := by
  obtain ⟨used, hUsed, hWidths, hUses⟩ := indentWith_replicate uses w
  rw [widths] at hWidths
  have hNotDeeper : ¬ used.width < w := by
    rw [width, hWidths]
    cases extra with
    | nil => exact Nat.not_lt.mpr (Nat.le_of_eq level.symm)
    | cons x extra =>
      have := beyond x (by simp)
      simp only [List.cons_append, List.headD_cons]
      omega
  have hLeft : used.left w = extra := by
    rw [left, hWidths, List.takeWhile_append_of_pos (by simpa using beyond)]
    cases base with
    | nil => simp
    | cons b base =>
      have hLevel : b = w := level
      simp [hLevel]
  refine ⟨{ used with widths := base }, ?_, rfl, hUses⟩
  have hBase : used.widths.drop extra.length = base := by rw [hWidths, List.drop_left]
  simp only [enter, hUsed, List.length_replicate, if_neg hNotDeeper, hLeft, hBase]
  exact if_pos level

end Layout

theorem scanLines_of_line {l inner : Layout} {c : Cursor} {ts more : List Token} {rest : List Char}
    {line column : Int} (h : scanLine l c = .ok (ts, inner, ⟨'\n' :: rest, line, column⟩))
    (hMore : scanLines inner ⟨rest, line + 1, 1⟩ = .ok more) :
    scanLines l c = .ok (ts ++ more) := by
  have hText : c.rest ≠ [] := by
    intro hNone
    have hLength := scanLine_le h
    rw [hNone] at hLength
    simp at hLength
  have hNext : Cursor.next ⟨'\n' :: rest, line, column⟩ = ⟨rest, line + 1, 1⟩ := rfl
  rw [scanLines_next hText h, hNext, hMore]
  rfl

namespace Draft

open Text (Joined)

variable {g : Grammar} {ch : Char}

/-- From the layout `l` on, the lines of some drafts are scanned as the tokens `lead`, for the
blocks that the first line opens or leaves, and a block of the grammar. It lacks the dedents of
the blocks `extra` that the last line leaves open. -/
def Scanned (g : Grammar) (ch : Char) (step : Option Nat) (ds : List Draft) (w : Nat)
    (base : List Nat) (l : Layout) (lead : List Token) (line : Int) (more : List Char) : Prop :=
  ∃ (body : List Token) (extra : List Nat) (last : Layout),
    (∀ ts, scanLines last ⟨more, line + heights ds, 1⟩ = .ok ts →
      scanLines l ⟨writeAll ch w ds ++ more, line, 1⟩ = .ok (lead ++ body ++ ts)) ∧
    last.widths = extra ++ base ∧ (∀ x ∈ extra, w < x) ∧ last.Uses ch ∧
    ∀ dedents : List Token, (∀ t ∈ dedents, t.kind = .dedent) → dedents.length = extra.length →
      Block g step (body ++ dedents) (nodes g step.isSome line w ds)

/-- The drafts after one that leaves the blocks `extra` open. -/
theorem scanned_rest {step : Option Nat} {ds : List Draft} {w : Nat} {extra base : List Nat}
    {l : Layout} {line : Int} {more : List Char} (uses : l.Uses ch)
    (widths : l.widths = extra ++ base) (beyond : ∀ x ∈ extra, w < x) (level : base.headD 0 = w)
    (scanned : ∀ lead inner, ds ≠ [] → l.enter (List.replicate w ch) line = .ok (inner, lead) →
      inner.widths = base → inner.Uses ch → Scanned g ch step ds w base l lead line more) :
    ∃ (body : List Token) (extra' : List Nat) (last : Layout),
      (∀ ts, scanLines last ⟨more, line + heights ds, 1⟩ = .ok ts →
        scanLines l ⟨writeAll ch w ds ++ more, line, 1⟩ = .ok (body ++ ts)) ∧
      last.widths = extra' ++ base ∧ (∀ x ∈ extra', w < x) ∧ last.Uses ch ∧
      ∀ dedents : List Token, (∀ t ∈ dedents, t.kind = .dedent) → dedents.length = extra'.length →
        ∃ closing ts, body ++ dedents = closing ++ ts ∧ (∀ t ∈ closing, t.kind = .dedent) ∧
          closing.length = extra.length ∧ Block g step ts (nodes g step.isSome line w ds) := by
  by_cases hNone : ds = []
  · subst hNone
    refine ⟨[], extra, l, fun ts hTokens => ?_, widths, beyond, uses, fun dedents hKinds hLength =>
      ⟨dedents, [], by simp, hKinds, hLength, .nil⟩⟩
    simpa [writeAll, heights] using hTokens
  · obtain ⟨inner, hEnter, hWidths, hUses⟩ := Layout.enter_back uses widths beyond level line
    obtain ⟨body, extra', last, hScan, hLast, hBeyond, hLastUses, hBlock⟩ :=
      scanned _ inner hNone hEnter hWidths hUses
    refine ⟨_, extra', last, hScan, hLast, hBeyond, hLastUses, fun dedents hKinds hLength =>
      ⟨_, body ++ dedents, List.append_assoc _ _ _, ?_, by simp, hBlock dedents hKinds hLength⟩⟩
    simp

theorem indentChars_of_replicate (hch : isIndentChar ch = true) (w : Nat) :
    ∀ c ∈ List.replicate w ch, isIndentChar c = true := by
  intro c hc
  rwa [List.eq_of_mem_replicate hc]

variable {step : Option Nat} {ds : List Draft} {w : Nat} {base : List Nat} {l inner : Layout}
  {lead : List Token} {line : Int} {more : List Char}

theorem scanned_command (hch : isIndentChar ch = true) {c : CommandDraft} (fits : c.Fits g step)
    (enter : l.enter (List.replicate w ch) line = .ok (inner, lead)) (widths : inner.widths = base)
    (level : base.headD 0 = w) (uses : inner.Uses ch)
    (rest : ∀ lead' inner', ds ≠ [] →
      inner.enter (List.replicate w ch) (line + height (.command c)) = .ok (inner', lead') →
      inner'.widths = base → inner'.Uses ch →
      Scanned g ch (step.map (· + 1)) ds w base inner lead' (line + height (.command c)) more) :
    Scanned g ch step (.command c :: ds) w base l lead line more := by
  obtain ⟨colon, lineEnd, ts, column, hLine, hColon, hEnd, hContents⟩ := scanLine_write enter
    (indentChars_of_replicate hch w) fits.identifier
    (c.allRead_arguments fits (.cons (writeAll ch w ds ++ more))) (.cons _)
  have hWidths : inner.widths = [] ++ base := widths
  obtain ⟨body, extra, last, hScan, hLast, hBeyond, hLastUses, hBlock⟩ :=
    scanned_rest uses hWidths (by simp) level rest
  rw [String.ofList_toList, List.length_replicate] at hLine
  have hCommand : CommandLine g step (⟨.commandName, c.name, line, 1 + w⟩ :: colon :: ts) _ :=
    c.commandLine_of_contents fits rfl rfl (congrArg Prod.fst hColon) hContents
  refine ⟨[⟨.commandName, c.name, line, 1 + w⟩, colon] ++ ts ++ [lineEnd] ++ body, extra, last,
    fun others hTokens => ?_, hLast, hBeyond, hLastUses, fun dedents hKinds hLength => ?_⟩
  · have hMore := hScan others (by simpa [heights, Int.add_assoc] using hTokens)
    have hAll := scanLines_of_line hLine (by
      simpa [height, CommandDraft.write, Int.add_assoc] using hMore)
    simpa [writeAll, write, CommandDraft.write] using hAll
  · obtain ⟨closing, others, hSplit, -, hNone, hOthers⟩ := hBlock dedents hKinds hLength
    rw [List.length_eq_zero_iff.mp hNone, List.nil_append] at hSplit
    rw [List.append_assoc, hSplit]
    have hFirst := Block.command hCommand (congrArg Prod.fst hEnd) (by simpa using hOthers)
    simpa [nodes, node] using hFirst

/-- The line that starts a chain. -/
theorem scanLine_chain (hch : isIndentChar ch = true)
    (enter : l.enter (List.replicate w ch) line = .ok (inner, lead)) (behind : List Char) :
    ∃ colon lineEnd column,
      scanLine l ⟨List.replicate w ch ++ (writeLine chainCommand.toList [] ++ '\n' :: behind),
          line, 1⟩ =
        .ok (lead ++ [⟨.commandName, chainCommand, line, 1 + w⟩, colon] ++ [lineEnd], inner,
          ⟨'\n' :: behind, line, column⟩) ∧
      colon.kind = .colon ∧ lineEnd.kind = .newline := by
  obtain ⟨colon, lineEnd, ts, column, hLine, hColon, hEnd, hContents⟩ :=
    @scanLine_write l inner _ chainCommand.toList _ [] _ _ enter
      (indentChars_of_replicate hch w) (by decide) trivial (.cons behind)
  have hOneLine : (writeLine chainCommand.toList []).count '\n' = 0 := by decide
  have hNone : ts = [] := List.map_eq_nil_iff.mp hContents
  subst hNone
  rw [String.ofList_toList, List.length_replicate, hOneLine, Int.natCast_zero,
    Int.add_zero] at hLine
  exact ⟨colon, lineEnd, column, by simpa using hLine, congrArg Prod.fst hColon,
    congrArg Prod.fst hEnd⟩

theorem scanned_chain (hch : isIndentChar ch = true) {deeper : Nat} {steps : List Draft}
    {schema : Schema} (known : g.find? chainCommand = some schema) (nonempty : steps ≠ [])
    (enter : l.enter (List.replicate w ch) line = .ok (inner, lead)) (widths : inner.widths = base)
    (level : base.headD 0 = w) (uses : inner.Uses ch)
    (within : ∀ lead' inside,
      inner.enter (List.replicate (w + deeper + 1) ch) (line + 1) = .ok (inside, lead') →
      inside.widths = (w + deeper + 1) :: base → inside.Uses ch →
      Scanned g ch (some 0) steps (w + deeper + 1) ((w + deeper + 1) :: base) inner lead' (line + 1)
        (writeAll ch w ds ++ more))
    (rest : ∀ left lead' inner', ds ≠ [] →
      left.enter (List.replicate w ch) (line + height (.chain deeper steps)) = .ok (inner', lead') →
      inner'.widths = base → inner'.Uses ch →
      Scanned g ch (step.map (· + 1)) ds w base left lead' (line + height (.chain deeper steps))
        more) :
    Scanned g ch step (.chain deeper steps :: ds) w base l lead line more := by
  obtain ⟨colon, lineEnd, column, hLine, hColon, hEnd⟩ := scanLine_chain hch enter
    (writeAll ch (w + deeper + 1) steps ++ (writeAll ch w ds ++ more))
  have hDeeper : inner.width < w + deeper + 1 := by
    rw [Layout.width, widths, level]
    omega
  obtain ⟨inside, hInside, hInsideWidths, hInsideUses⟩ :=
    Layout.enter_deeper uses hDeeper (line + 1)
  obtain ⟨innerBody, innerExtra, innerLast, hInnerScan, hInnerLast, hInnerBeyond, hInnerUses,
    hInnerBlock⟩ := within _ inside hInside (by rw [hInsideWidths, widths]) hInsideUses
  have hWidths : innerLast.widths = (innerExtra ++ [w + deeper + 1]) ++ base := by
    rw [hInnerLast, List.append_assoc]
    rfl
  have hBeyondHere : ∀ x ∈ innerExtra ++ [w + deeper + 1], w < x := by
    intro x hx
    rcases List.mem_append.mp hx with hx | hx
    · have := hInnerBeyond x hx
      omega
    · rw [List.mem_singleton.mp hx]
      omega
  obtain ⟨body, extra, last, hScan, hLast, hBeyond, hLastUses, hBlock⟩ :=
    scanned_rest hInnerUses hWidths hBeyondHere level (rest innerLast)
  refine ⟨[⟨.commandName, chainCommand, line, 1 + w⟩, colon] ++ [lineEnd] ++
    [⟨.indent, String.ofList (List.replicate (w + deeper + 1) ch), line + 1, 1⟩] ++ innerBody ++
    body, extra, last, fun others hTokens => ?_, hLast, hBeyond, hLastUses,
    fun dedents hKinds hLength => ?_⟩
  · have hMore := hScan others (by simpa [heights, Int.add_assoc] using hTokens)
    have hSteps := hInnerScan _ (by simpa [height, Int.add_assoc, Int.add_comm 1] using hMore)
    have hAll := scanLines_of_line hLine (by simpa using hSteps)
    simpa [writeAll, write] using hAll
  · obtain ⟨closing, others, hSplit, hClosing, hClosed, hOthers⟩ := hBlock dedents hKinds hLength
    -- The last of the closing dedents belongs to the steps, the others to chains within them.
    rcases closing.eq_nil_or_concat with rfl | ⟨inner', dedent, rfl⟩
    · simp at hClosed
    rw [List.concat_eq_append] at hSplit hClosing hClosed
    have hInnerClosed : inner'.length = innerExtra.length := by simpa using hClosed
    have hSteps := hInnerBlock inner' (fun t ht => hClosing t (by simp [ht])) hInnerClosed
    have hSlot : slot g step.isSome chainCommand = step.map fun _ => schema.label := by
      cases step <;> simp [slot, known]
    have hNodes : nodes g true (line + 1) (w + deeper + 1) steps ≠ [] := by
      obtain ⟨d, ds, rfl⟩ := List.exists_cons_of_ne_nil nonempty
      exact List.cons_ne_nil _ _
    have hChain := @Block.chain g step ⟨.commandName, chainCommand, line, 1 + w⟩ colon lineEnd
      ⟨.indent, String.ofList (List.replicate (w + deeper + 1) ch), line + 1, 1⟩ dedent schema
      _ _ _ _ rfl rfl known hColon hEnd rfl (hClosing dedent (by simp)) hNodes hSteps hOthers
    rw [nodes, node, hSlot]
    simp only [List.append_assoc] at hSplit ⊢
    rw [hSplit]
    simpa [height, Int.add_assoc, Int.add_comm 1] using hChain

theorem scanned_of_allFit (hch : isIndentChar ch = true) (h : AllFit g step ds) (nonempty : ds ≠ [])
    (enter : l.enter (List.replicate w ch) line = .ok (inner, lead)) (widths : inner.widths = base)
    (level : base.headD 0 = w) (uses : inner.Uses ch) :
    Scanned g ch step ds w base l lead line more := by
  induction h generalizing w base l inner lead line more with
  | nil => exact absurd rfl nonempty
  | command first _ ih =>
    exact scanned_command hch first enter widths level uses fun _ _ hSome hEnter hWidths hUses =>
      ih hSome hEnter hWidths level hUses
  | chain known hSome _ _ ihInner ihRest =>
    refine scanned_chain hch known hSome enter widths level uses ?_ ?_
    · intro lead' inside hEnter hWidths hUses
      exact ihInner hSome hEnter hWidths rfl hUses
    · intro left lead' inner' hMore hEnter hWidths hUses
      exact ihRest hMore hEnter hWidths level hUses

theorem joined_writeAll (hch : isIndentChar ch = true) {step : Option Nat} {ds : List Draft}
    (h : AllFit g step ds) (w : Nat) : Joined (writeAll ch w ds) := by
  have hIndent : ∀ w, Joined (List.replicate w ch) := by
    intro w
    refine .of_line ?_ ?_ <;> intro hBad
    · rw [← List.eq_of_mem_replicate hBad] at hch
      cases hch
    · rw [← List.eq_of_mem_replicate (List.mem_of_getLast? hBad)] at hch
      cases hch
  have hBreak : Joined ['\n'] := ⟨rfl, by simp⟩
  induction h generalizing w with
  | nil => exact .nil
  | command first _ ih =>
    rw [writeAll, write]
    exact ((hIndent w).append ((CommandDraft.joined_write first).append hBreak)).append (ih w)
  | @chain _ deeper steps _ _ _ _ _ _ ihInner ihRest =>
    rw [writeAll, write]
    have hHeader : Joined (writeLine chainCommand.toList []) :=
      joined_writeLine (by decide) (by simp)
    exact ((hIndent w).append (hHeader.append (hBreak.append (ihInner (w + deeper + 1))))).append
      (ihRest w)

/-- A written script is parsed to its tree, whatever is written as a block and however far chains
are indented. -/
theorem ofText_writeAll (hch : isIndentChar ch = true) {items : List Draft}
    (h : AllFit g none items) :
    Script.ofText g (String.ofList (writeAll ch 0 items)) = .ok ⟨nodes g false 1 0 items⟩ := by
  obtain ⟨body, extra, last, hScan, hLast, -, -, hBlock⟩ :=
    @scanned_rest g ch none items 0 [] [] {} 1 [] (.inl rfl) rfl (by simp) rfl
      fun _ _ hSome hEnter hWidths hUses =>
        scanned_of_allFit hch h hSome hEnter hWidths rfl hUses
  have hFinish : scanLines last ⟨[], 1 + heights items, 1⟩ =
      .ok (finish last ⟨[], 1 + heights items, 1⟩) := by
    rw [scanLines]
    rfl
  obtain ⟨closing, ts, hSplit, -, hNone, hItems⟩ := hBlock
    (last.widths.map fun _ => Cursor.token ⟨[], 1 + heights items, 1⟩ .dedent [])
    (by simp [Cursor.token])
    (by rw [hLast]; simp)
  rw [List.length_eq_zero_iff.mp hNone, List.nil_append] at hSplit
  have hTokens : Token.ofText (String.ofList (writeAll ch 0 items)) =
      .ok (ts ++ [Cursor.token ⟨[], 1 + heights items, 1⟩ .eof []]) := by
    have hScanned := hScan _ hFinish
    rw [finish, ← List.append_assoc, hSplit, List.append_nil] at hScanned
    rw [Token.ofText, String.toList_ofList, (joined_writeAll hch h 0).kept]
    simp only [Cursor.start, hScanned]
    rfl
  have hDerivation : Derivation g (ts ++ [Cursor.token ⟨[], 1 + heights items, 1⟩ .eof []]) _ :=
    .script hItems rfl
  rw [Script.ofText, hTokens]
  simp only [ofTokens_of_derivation hDerivation]
  rfl

/-- A chain that looks for two strings, one of them written as a block, and condenses the result. -/
def searchDraft : Draft :=
  .chain 1
    [.command ⟨"SEARCH", some (.literal [⟨"green\ntea", true⟩, ⟨"say \"cha\"", false⟩]), []⟩,
     .command ⟨"SUMMARIZE", some (.reference "search results"), [("focus", "taste, aroma")]⟩]

theorem allFit_searchDraft : AllFit .builtin none [searchDraft] := by
  have hPhrase : IsPhrase "search results".toList := by
    have hFirst (c : Char) (hc : c ∈ "search results".toList.head?) : c = 's' :=
      (Option.some.inj hc).symm
    have hLast (c : Char) (hc : c ∈ "search results".toList.getLast?) : c = 's' :=
      (Option.some.inj hc).symm
    refine ⟨by decide, by decide, fun c hc => hFirst c hc ▸ by decide,
      fun c hc => hLast c hc ▸ by decide, by decide, by decide, ?_⟩
    intro c _ hGap
    have hHyphen : '-' ∈ "search results".toList := hGap.subset (by simp)
    revert hHyphen
    decide
  have hBlock : Part.Fits ⟨"green\ntea", true⟩ := by
    intro _
    have hInfix : ∀ l : List Char, l <:+: "green\ntea".toList → '"' ∉ l ∧ '\r' ∉ l := fun l hl =>
      ⟨fun h => absurd (hl.subset h) (by decide), fun h => absurd (hl.subset h) (by decide)⟩
    refine ⟨?_, fun h => (hInfix _ h).2 (by simp)⟩
    rintro (h | h)
    · exact (hInfix _ h).1 (by simp)
    · revert h
      decide
  refine .chain rfl (by simp) (.command ?_ (.command ?_ .nil)) .nil
  · refine ⟨by decide, by decide, ⟨_, rfl, by simp, by simp⟩, ?_, by simp, by simp, by simp⟩
    intro input hInput
    cases hInput
    refine ⟨by simp, fun p hp => ?_⟩
    simp only [List.mem_cons, List.not_mem_nil, or_false] at hp
    rcases hp with rfl | rfl
    · exact hBlock
    · exact fun h => absurd h (by decide)
  · refine ⟨by decide, by decide, ⟨_, rfl, by simp, ?_⟩, ?_, ?_, by decide, ?_⟩
    · simp only [List.mem_singleton, forall_eq]
      exact ⟨.freeText, rfl, rfl⟩
    · intro input hInput
      cases hInput
      exact ⟨hPhrase, 0, rfl⟩
    · simp only [List.mem_singleton, forall_eq, IsCanonicalKey]
      decide
    · simp only [List.mem_singleton, forall_eq]
      decide

theorem ofText_searchDraft :
    String.ofList (writeAll ' ' 0 [searchDraft]) =
      "CHAIN:\n  SEARCH: \"\"\"green\ntea\"\"\" \"say \\\"cha\\\"\"\n" ++
        "  SUMMARIZE: search results --focus=\"taste, aroma\"\n" ∧
    Script.ofText .builtin (String.ofList (writeAll ' ' 0 [searchDraft])) =
      .ok ⟨nodes .builtin false 1 0 [searchDraft]⟩ :=
  ⟨by decide +kernel, ofText_writeAll (by decide) allFit_searchDraft⟩

end Draft

end Directive
