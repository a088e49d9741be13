import Directive.Proofs.Script.Failure

/-!
# One token ahead

A parse takes tokens one after another, and looks at the next one only. So what it comes to is settled
by the tokens up to the one at which it stands.

* `leaving`: what a parser comes to, in front of the tokens that it leaves;
* `OneAhead`: a parser that looks at no token but those that it takes and the next one;
* `OneAhead.bind`: two such parsers in a row;
* `oneAhead_nodesOf`: the parser of a block is one of them;
* `ofTokens_settled`: a script, or a fault, does not depend on any later token.
-/

namespace Directive

open ParseContext

variable {α β : Type}

/-- What a parser comes to in front of the tokens that it leaves. -/
def leaving (verdict : Except Fault α) (ahead : List Token) : Except Stop (α × List Token) :=
  match verdict with
  | .ok a => .ok (a, ahead)
  | .error f => .error ⟨f, ahead⟩

/-- In front of these tokens the parser takes some, none of them the end of the input, and looks at
the next one: any tokens with the same first one may stand there. -/
def OneAhead (parse : List Token → Except Stop (α × List Token)) (ts : List Token) : Prop :=
  ∃ taken ahead verdict, ts = taken ++ ahead ∧ (∀ t ∈ taken, t.kind ≠ .eof) ∧
    ∀ ahead', ahead'.head? = ahead.head? → parse (taken ++ ahead') = leaving verdict ahead'

theorem head?_append_of_head? {taken ts ts' : List Token} (h : ts'.head? = ts.head?) :
    (taken ++ ts').head? = (taken ++ ts).head? := by
  cases taken with
  | nil => exact h
  | cons t taken => rfl

theorem frontToken_of_head? {ts ts' : List Token} (h : ts'.head? = ts.head?) :
    frontToken ts' = frontToken ts := by
  rw [frontToken, frontToken, List.headD_eq_head?_getD, List.headD_eq_head?_getD, h]

theorem nextKind_of_head? {ts ts' : List Token} (h : ts'.head? = ts.head?) :
    nextKind ts' = nextKind ts :=
  congrArg Token.kind (frontToken_of_head? h)

namespace OneAhead

variable {parse next : List Token → Except Stop (α × List Token)} {t : Token} {ts : List Token}

/-- A parser that takes nothing. -/
theorem of_verdict (verdict : Except Fault α)
    (h : ∀ ts', ts'.head? = ts.head? → parse ts' = leaving verdict ts') : OneAhead parse ts :=
  ⟨[], ts, verdict, rfl, by simp, h⟩

/-- A parser that goes on by its first token, before it takes it. -/
theorem peek (h : OneAhead next ts) (same : ∀ ts', ts'.head? = ts.head? → parse ts' = next ts') :
    OneAhead parse ts := by
  obtain ⟨taken, ahead, verdict, rfl, more, settled⟩ := h
  refine ⟨taken, ahead, verdict, rfl, more, ?_⟩
  intro ahead' hAhead
  rw [same _ (head?_append_of_head? hAhead)]
  exact settled ahead' hAhead

/-- A parser that takes some tokens, whatever is behind them. -/
theorem takeAll {taken : List Token} (more : ∀ t ∈ taken, t.kind ≠ .eof)
    (h : OneAhead (fun ts => parse (taken ++ ts)) ts) : OneAhead parse (taken ++ ts) := by
  obtain ⟨taken', ahead, verdict, rfl, more', settled⟩ := h
  refine ⟨taken ++ taken', ahead, verdict, (List.append_assoc _ _ _).symm, ?_, ?_⟩
  · intro t ht
    rcases List.mem_append.mp ht with ht | ht
    · exact more t ht
    · exact more' t ht
  · intro ahead' hAhead
    rw [List.append_assoc]
    exact settled ahead' hAhead

theorem take (more : t.kind ≠ .eof) (h : OneAhead (fun ts => parse (t :: ts)) ts) :
    OneAhead parse (t :: ts) :=
  @takeAll _ _ _ [t] (by simpa using more) h

/-- Two parsers in a row. -/
theorem bind {next : α × List Token → Except Stop (β × List Token)} (first : OneAhead parse ts)
    (second : ∀ a ahead, parse ts = .ok (a, ahead) → OneAhead (fun ts => next (a, ts)) ahead) :
    OneAhead (fun ts => parse ts >>= next) ts := by
  obtain ⟨taken, ahead, verdict, rfl, more, settled⟩ := first
  have hHere := settled ahead rfl
  cases verdict with
  | error f =>
    refine ⟨taken, ahead, .error f, rfl, more, ?_⟩
    intro ahead' hAhead
    dsimp only
    rw [settled ahead' hAhead]
    rfl
  | ok a =>
    obtain ⟨taken', ahead₂, verdict, rfl, more', settled'⟩ := second a ahead hHere
    refine ⟨taken ++ taken', ahead₂, verdict, (List.append_assoc _ _ _).symm, ?_, ?_⟩
    · intro t ht
      rcases List.mem_append.mp ht with ht | ht
      · exact more t ht
      · exact more' t ht
    · intro ahead' hAhead
      dsimp only
      rw [List.append_assoc, settled _ (head?_append_of_head? hAhead)]
      exact settled' ahead' hAhead

theorem map {f : α → β} (h : OneAhead parse ts) :
    OneAhead (fun ts => (parse ts).map fun p => (f p.1, p.2)) ts := by
  obtain ⟨taken, ahead, verdict, rfl, more, settled⟩ := h
  refine ⟨taken, ahead, verdict.map f, rfl, more, ?_⟩
  intro ahead' hAhead
  dsimp only
  rw [settled ahead' hAhead]
  cases verdict <;> rfl

end OneAhead

namespace ParseContext

variable {c : ParseContext} {step : Option Nat} {ts : List Token}

/-- A parser that stops at its first token, without taking it. -/
theorem oneAhead_stop {parse : List Token → Except Stop (α × List Token)} (p : Token → ParseProblem)
    (t : Token → Token)
    (h : ∀ ts', ts'.head? = ts.head? →
      parse ts' = c.stop (p (frontToken ts')) (t (frontToken ts')) ts') : OneAhead parse ts := by
  apply OneAhead.of_verdict
    (.error ⟨.parse (p (frontToken ts)), c.placeOf (t (frontToken ts)) none⟩)
  intro ts' hFront
  rw [h ts' hFront, frontToken_of_head? hFront]
  rfl

theorem isString_takeStrings (ts : List Token) : (nextKind (takeStrings ts).2).isString = false := by
  fun_induction takeStrings ts with
  | case1 => rfl
  | case2 t ts _ parts rest hRest ih => rwa [hRest] at ih
  | case3 t ts hOther => exact Bool.eq_false_iff.mpr hOther

theorem takeInput_of_strings {strings rest : List Token} (nonempty : strings ≠ [])
    (kinds : ∀ t ∈ strings, t.kind.isString = true) (stops : (nextKind rest).isString = false) :
    c.takeInput step (strings ++ rest) =
      if nextKind rest = .bareReference then
        c.stop (.textAfterInput (frontToken rest).text) (frontToken rest) rest
      else .ok (some (.literal (strings.map Token.text)), rest) := by
  unfold takeInput
  rw [takeStrings_append kinds stops]
  cases strings with
  | nil => exact absurd rfl nonempty
  | cons t strings => rfl

theorem takeInput_of_other {t : Token} (other : t.kind.isString = false) :
    c.takeInput step (t :: ts) =
      if t.kind = .bareReference then
        match step with
        | none => c.stop (.referenceOutsideChain t.text) t ts
        | some 0 => c.stop (.referenceInFirstStep t.text) t ts
        | some _ => .ok (some (.reference t.text), ts)
      else .ok (none, t :: ts) := by
  have hNone : takeStrings (t :: ts) = ([], t :: ts) := @takeStrings_append [] _ (by simp) other
  have hInput := takeInput.eq_def c step (t :: ts)
  rw [hNone] at hInput
  exact hInput

theorem oneAhead_takeInput (c : ParseContext) (step : Option Nat) (ts : List Token) :
    OneAhead (c.takeInput step) ts := by
  obtain ⟨strings, hSplit, -, hKinds⟩ := takeStrings_spec ts
  have hStops := isString_takeStrings ts
  generalize (takeStrings ts).2 = rest at hSplit hStops
  subst hSplit
  by_cases hNone : strings = []
  · subst hNone
    rcases rest with _ | ⟨t, rest⟩
    · apply OneAhead.of_verdict (.ok none)
      intro ts' h
      rw [List.head?_eq_none_iff.mp h]
      rfl
    have hOther : t.kind.isString = false := hStops
    by_cases hReference : t.kind = .bareReference
    · apply OneAhead.take (by simp [hReference])
      simp only [takeInput_of_other hOther, if_pos hReference]
      rcases step with _ | _ | k
      · exact .of_verdict (.error ⟨_, _⟩) fun _ _ => rfl
      · exact .of_verdict (.error ⟨_, _⟩) fun _ _ => rfl
      · exact .of_verdict (.ok (some (.reference t.text))) fun _ _ => rfl
    · apply OneAhead.of_verdict (.ok none)
      intro ts' h
      obtain ⟨rest', rfl⟩ := List.head?_eq_some_iff.mp h
      rw [takeInput_of_other hOther]
      exact if_neg hReference
  · apply OneAhead.takeAll
    · intro t ht hEof
      simpa [hEof, TokenKind.isString] using hKinds t ht
    by_cases hReference : nextKind rest = .bareReference
    · refine oneAhead_stop (c := c) (fun t => .textAfterInput t.text) id fun ts' h => ?_
      rw [takeInput_of_strings hNone hKinds (by rwa [nextKind_of_head? h]), nextKind_of_head? h]
      exact if_pos hReference
    · apply OneAhead.of_verdict (.ok (some (.literal (strings.map Token.text))))
      intro ts' h
      rw [takeInput_of_strings hNone hKinds (by rwa [nextKind_of_head? h]), nextKind_of_head? h]
      exact if_neg hReference

/-- A modifier in front of others. -/
theorem oneAhead_modifier {key value : Token} {rest : List Token} (hKey : key.kind = .modifierKey)
    (hValue : value.kind = .modifierValue) (hBlank : ¬ Text.isBlankText value.text = true)
    (h : OneAhead c.takeWritten rest) : OneAhead c.takeWritten (key :: value :: rest) := by
  apply OneAhead.take (by simp [hKey])
  apply OneAhead.take (by simp [hValue])
  apply (h.map (f := (⟨key, value⟩ :: ·))).peek
  intro ts' _
  rw [takeWritten.eq_def]
  simp only [hKey, hValue, if_true, if_neg hBlank]
  cases c.takeWritten ts' <;> rfl

theorem oneAhead_takeWritten (c : ParseContext) (ts : List Token) : OneAhead c.takeWritten ts := by
  fun_induction takeWritten c ts with
  | case1 =>
    apply OneAhead.of_verdict (.ok [])
    intro ts' h
    rw [List.head?_eq_none_iff.mp h]
    rfl
  | case2 key hKey value rest hValue hBlank =>
    apply OneAhead.take (by simp [hKey])
    apply OneAhead.take (by simp [hValue])
    apply OneAhead.of_verdict (.error ⟨.parse (.blankValue key.text), c.placeOf value none⟩)
    intro ts' _
    rw [takeWritten.eq_def]
    simp only [hKey, hValue, hBlank, if_true]
    rfl
  | case3 key hKey value rest hValue hBlank more rest' _ ih =>
    exact oneAhead_modifier hKey hValue hBlank ih
  | case4 key hKey value rest hValue hBlank e' _ ih =>
    exact oneAhead_modifier hKey hValue hBlank ih
  | case5 key hKey value rest hValue =>
    apply OneAhead.take (by simp [hKey])
    apply OneAhead.of_verdict (.error ⟨.parse (.noValue key.text), c.placeOf key none⟩)
    intro ts' h
    obtain ⟨rest', rfl⟩ := List.head?_eq_some_iff.mp h
    rw [takeWritten.eq_def]
    simp only [hKey, if_true, if_neg hValue]
    rfl
  | case6 key hKey =>
    apply OneAhead.take (by simp [hKey])
    apply OneAhead.of_verdict (.error ⟨.parse (.noValue key.text), c.placeOf key none⟩)
    intro ts' h
    rw [List.head?_eq_none_iff.mp h, takeWritten.eq_def]
    simp only [hKey, if_true]
    rfl
  | case7 key ts hKey =>
    apply OneAhead.of_verdict (.ok [])
    intro ts' h
    obtain ⟨rest', rfl⟩ := List.head?_eq_some_iff.mp h
    rw [takeWritten.eq_def]
    exact if_neg hKey

theorem oneAhead_takeModifiers (c : ParseContext) (schema : Schema) (command : String)
    (ts : List Token) : OneAhead (c.takeModifiers schema command) ts := by
  have hAccepted : OneAhead (fun ts => c.takeWritten ts >>= fun p =>
      leaving (schema.validateAll (settings p.1) (c.placeOfKey command p.1)) p.2) ts := by
    apply (oneAhead_takeWritten c ts).bind
    intro written ahead _
    exact .of_verdict (schema.validateAll (settings written) (c.placeOfKey command written))
      fun _ _ => rfl
  · apply hAccepted.peek
    intro ts' _
    rw [takeModifiers]
    rcases c.takeWritten ts' with e | ⟨written, rest⟩
    · rfl
    · change _ = leaving (schema.validateAll _ _) rest
      dsimp only
      cases schema.validateAll (settings written) (c.placeOfKey command written) <;> rfl

/-- A parser that goes on behind the end of a line. -/
theorem oneAhead_takeLineEnd {next : List Token → Except Stop (α × List Token)} (command : String)
    (ts : List Token) (h : ∀ ahead, c.takeLineEnd command ts = .ok ahead → OneAhead next ahead) :
    OneAhead (fun ts => c.takeLineEnd command ts >>= next) ts := by
  by_cases hNewline : nextKind ts = .newline
  · cases ts with
    | nil => cases hNewline
    | cons t ts =>
      have hKind : t.kind = .newline := hNewline
      apply OneAhead.take (by simp [hKind])
      apply (h ts (takeLineEnd_of_newline hKind)).peek
      intro ts' _
      rw [takeLineEnd_of_newline hKind]
      rfl
  · by_cases hEof : nextKind ts = .eof
    · have hStays {ts' : List Token} (hHead : ts'.head? = ts.head?) :
          c.takeLineEnd command ts' = .ok ts' := by
        rw [takeLineEnd, nextKind_of_head? hHead, hEof]
      apply (h ts (hStays rfl)).peek
      intro ts' hHead
      rw [hStays hHead]
      rfl
    · refine oneAhead_stop (c := c) (fun t => .unexpected t.describe command) id fun ts' hHead => ?_
      rw [takeLineEnd, nextKind_of_head? hHead]
      split
      · contradiction
      · contradiction
      · rfl

theorem oneAhead_takeName (c : ParseContext) (ts : List Token) : OneAhead c.takeName ts := by
  by_cases hName : nextKind ts = .commandName
  · rcases ts with _ | ⟨header, ts⟩
    · cases hName
    have hKind : header.kind = .commandName := hName
    apply OneAhead.take (by simp [hKind])
    cases hKnown : c.grammar.find? header.text with
    | none =>
      refine .of_verdict (.error ⟨.parse (.unknownCommand header.text (c.suggest header.text)),
        c.placeOf header none⟩) fun ts' _ => ?_
      exact @takeName_of_unknown c (header :: ts') hKind hKnown
    | some schema =>
      have hTaken (ts : List Token) : c.takeName (header :: ts) =
          if nextKind ts = .colon then .ok ((header, schema), ts.drop 1)
          else c.stop (.noColon header.text) (frontToken ts) ts :=
        @takeName_of_known c (header :: ts) schema hKind hKnown
      simp only [hTaken]
      by_cases hColon : nextKind ts = .colon
      · rcases ts with _ | ⟨colon, ts⟩
        · cases hColon
        have hMark : colon.kind = .colon := hColon
        apply OneAhead.take (by simp [hMark])
        apply OneAhead.of_verdict (.ok (header, schema))
        intro ts' _
        exact if_pos hMark
      · refine oneAhead_stop (c := c) (fun _ => .noColon header.text) id fun ts' hHead => if_neg ?_
        rwa [nextKind_of_head? hHead]
  · refine oneAhead_stop (c := c) (fun t => .noHeader t.describe) id fun ts' hHead => ?_
    apply takeName_of_other
    rwa [nextKind_of_head? hHead]

theorem oneAhead_takeChainStart (c : ParseContext) (header : Token) (schema : Schema)
    (slot : Option String) (ts : List Token) :
    OneAhead (c.takeChainStart header schema slot) ts := by
  by_cases hInput : ((nextKind ts).isString || nextKind ts = .bareReference) = true
  · refine oneAhead_stop (c := c) (fun _ => .chainWithInput) id fun ts' h => ?_
    rw [← nextKind_of_head? h] at hInput
    exact if_pos hInput
  have hBlock : OneAhead (fun ts => c.takeModifiers schema header.text ts >>= fun p =>
      c.takeLineEnd chainCommand p.2 >>= fun ts =>
        if nextKind ts = .indent then .ok (Heading.chain header slot, ts.drop 1)
        else c.stop .chainWithoutBlock header ts) ts := by
    apply (oneAhead_takeModifiers c schema header.text ts).bind
    intro modifiers ts _
    apply oneAhead_takeLineEnd chainCommand ts
    intro ts _
    by_cases hIndent : nextKind ts = .indent
    · rcases ts with _ | ⟨t, ts⟩
      · cases hIndent
      have hKind : t.kind = .indent := hIndent
      apply OneAhead.take (by simp [hKind])
      apply OneAhead.of_verdict (.ok (.chain header slot))
      intro ts' _
      exact if_pos hKind
    · refine oneAhead_stop (c := c) (fun _ => .chainWithoutBlock) (fun _ => header) fun ts' h => ?_
      rw [nextKind_of_head? h]
      exact if_neg hIndent
  apply hBlock.peek
  intro ts' h
  rw [← nextKind_of_head? h] at hInput
  exact if_neg hInput

theorem oneAhead_takeCommand (c : ParseContext) (header : Token) (schema : Schema)
    (slot : Option String) (step : Option Nat) (ts : List Token) :
    OneAhead (c.takeCommand header schema slot step) ts := by
  apply (oneAhead_takeInput c step ts).bind
  intro input ts _
  dsimp only
  by_cases hMissing : (input.isNone && schema.requiresInput) = true
  · simp only [if_pos hMissing]
    exact oneAhead_stop (c := c) (fun _ => .noInput header.text) id fun _ _ => rfl
  · simp only [if_neg hMissing]
    apply (oneAhead_takeModifiers c schema header.text ts).bind
    intro modifiers ts _
    dsimp only
    apply oneAhead_takeLineEnd header.text ts
    intro ts _
    exact .of_verdict (.ok (.command
      ⟨header.text, input, modifiers, slot, header.line, header.column⟩)) fun _ _ => rfl

theorem oneAhead_takeHeading (c : ParseContext) (step : Option Nat) (ts : List Token) :
    OneAhead (c.takeHeading step) ts := by
  simp only [funext (c.takeHeading_eq_bind step)]
  apply (oneAhead_takeName c ts).bind
  intro found ts _
  by_cases hChain : found.1.text = chainCommand
  · simp only [if_pos hChain]
    exact oneAhead_takeChainStart _ _ _ _ _
  · simp only [if_neg hChain]
    exact oneAhead_takeCommand _ _ _ _ _ _

/-- The parser of the nodes behind a line, if that of the nodes behind every shorter list looks at
one token ahead. -/
theorem oneAhead_afterHeading {heading : Heading}
    (ih : ∀ (step : Option Nat) (ahead : List Token), ahead.length ≤ ts.length →
      OneAhead (c.nodesOf step) ahead) :
    OneAhead (fun ts => c.afterHeading step (heading, ts)) ts := by
  cases heading with
  | command i => exact (ih _ ts (Nat.le_refl _)).map
  | chain header slot =>
    simp only [c.afterHeading_chain]
    apply (ih (some 0) ts (Nat.le_refl _)).bind
    intro steps ahead hSteps
    by_cases hNone : steps.isEmpty = true
    · simp only [if_pos hNone]
      exact oneAhead_stop (c := c) (fun _ => .chainWithoutSteps) (fun _ => header) fun _ _ => rfl
    · simp only [if_neg hNone]
      exact (ih _ ahead (c.nodesOf_le hSteps)).map

/-- The parser of a block looks at one token ahead. -/
theorem oneAhead_nodesOf (c : ParseContext) (step : Option Nat) (ts : List Token) :
    OneAhead (c.nodesOf step) ts := by
  induction step, ts using block_induction with
  | nil step =>
    apply OneAhead.of_verdict (.ok [])
    intro ts' h
    rw [List.head?_eq_none_iff.mp h]
    exact c.nodesOf_nil step
  | eof step t ts hEof =>
    apply OneAhead.of_verdict (.ok [])
    intro ts' h
    obtain ⟨rest, rfl⟩ := List.head?_eq_some_iff.mp h
    exact c.nodesOf_eof step hEof
  | newline step t ts hNewline ih =>
    apply OneAhead.take (by simp [hNewline])
    simp only [c.nodesOf_newline step hNewline]
    exact ih
  | dedent step t ts hDedent =>
    cases step with
    | none =>
      refine oneAhead_stop (c := c) (fun _ => .strayDedent) (fun _ => t) fun ts' h => ?_
      obtain ⟨rest, rfl⟩ := List.head?_eq_some_iff.mp h
      exact c.nodesOf_dedent none hDedent
    | some k =>
      apply OneAhead.take (by simp [hDedent])
      simp only [c.nodesOf_dedent (some k) hDedent]
      exact .of_verdict (.ok []) fun _ _ => rfl
  | indent step t ts hIndent =>
    refine oneAhead_stop (c := c)
      (fun _ => if step.isSome then .strayIndentInChain else .strayIndent) (fun _ => t)
      fun ts' h => ?_
    obtain ⟨rest, rfl⟩ := List.head?_eq_some_iff.mp h
    exact c.nodesOf_indent step hIndent
  | heading step t ts hKind ih =>
    have hHeading : OneAhead (fun ts => c.takeHeading step ts >>= c.afterHeading step) (t :: ts) := by
      apply (oneAhead_takeHeading c step (t :: ts)).bind
      intro heading ahead hHeading
      apply oneAhead_afterHeading
      intro step' ahead' hLe
      exact ih step' ahead' (Nat.lt_of_le_of_lt hLe (c.takeHeading_lt hHeading))
    apply hHeading.peek
    intro ts' h
    obtain ⟨rest, rfl⟩ := List.head?_eq_some_iff.mp h
    exact c.nodesOf_heading step hKind

end ParseContext

/-! ### Scripts -/

/-- The place of the first token for the end of the input. -/
def firstEnd (ts : List Token) : Nat := ts.findIdx (·.kind = .eof)

section FirstEnd

variable {taken ahead ts : List Token}

theorem firstEnd_append (more : ∀ t ∈ taken, t.kind ≠ .eof) :
    firstEnd (taken ++ ahead) = firstEnd ahead + taken.length := by
  have hNone : taken.findIdx (fun t => decide (t.kind = .eof)) = taken.length :=
    List.findIdx_eq_length_of_false fun t ht => decide_eq_false (more t ht)
  rw [firstEnd, List.findIdx_append, hNone, if_neg (Nat.lt_irrefl _), firstEnd]

/-- Tokens that are the same up to one are taken in the same way. -/
theorem exists_ahead_of_take
    (h : ts.take (taken.length + 1) = (taken ++ ahead).take (taken.length + 1)) :
    ts = taken ++ ts.drop taken.length ∧ (ts.drop taken.length).head? = ahead.head? := by
  constructor
  · have hTaken : ts.take taken.length = taken := by
      have hFront := congrArg (List.take taken.length) h
      rwa [List.take_take, List.take_take, Nat.min_eq_left (Nat.le_succ _), List.take_left] at hFront
    conv => lhs; rw [← List.take_append_drop taken.length ts, hTaken]
  · have hNext := congrArg (fun l => l[taken.length]?) h
    rw [List.getElem?_take_of_lt (Nat.lt_succ_self _),
      List.getElem?_take_of_lt (Nat.lt_succ_self _)] at hNext
    rw [List.head?_drop, hNext, List.getElem?_append_right (Nat.le_refl _), Nat.sub_self,
      ← List.head?_eq_getElem?]

/-- The tokens up to the first that ends the input. -/
theorem ahead_take_firstEnd (ended : ∃ t ∈ ts, t.kind = .eof) :
    Ahead (ts.take (firstEnd ts + 1)) (ts.take (firstEnd ts + 1)) := by
  have hSome : firstEnd ts < ts.length := by
    obtain ⟨t, ht, hEof⟩ := ended
    exact List.findIdx_lt_length_of_exists ⟨t, ht, decide_eq_true hEof⟩
  refine ⟨List.suffix_refl _, ts[firstEnd ts], ?_, ?_⟩
  · rw [List.getLast?_eq_getElem?, List.length_take, Nat.min_eq_left hSome]
    simp [hSome]
  · exact of_decide_eq_true (List.findIdx_getElem (w := hSome))

end FirstEnd

/-- What the parser of a script comes to. -/
theorem ofTokens_eq (g : Grammar) (lines : List String) (ts : List Token) :
    Script.ofTokens g lines ts = (nodesOf ⟨g, lines⟩ none ts).map fun p => ⟨p.1⟩ :=
  Script.ofTokens_eq_map g lines ts

/-- **A parse is settled by the tokens up to the one at which it stands.** Whatever tokens there are,
with one for the end of the input among them, a parse comes to a script or to a fault, and takes
nothing from the first end of the input on. -/
theorem ofTokens_settled (g : Grammar) (lines : List String) {ts : List Token}
    (ended : ∃ t ∈ ts, t.kind = .eof) :
    (∃ s, Script.ofTokens g lines ts = .ok s ∧ ∀ ts' : List Token,
      ts'.take (firstEnd ts + 1) = ts.take (firstEnd ts + 1) →
        Script.ofTokens g lines ts' = .ok s) ∨
    ∃ e p, Script.ofTokens g lines ts = .error e ∧ e.ahead = ts.drop p ∧ p ≤ firstEnd ts ∧
      (e.fault.trouble.name = "ParseError" ∨ e.fault.trouble.name = "ValidationError") ∧
      ∀ ts' : List Token, ts'.take (p + 1) = ts.take (p + 1) →
        Script.ofTokens g lines ts' = .error ⟨e.fault, ts'.drop p⟩ := by
  simp only [ofTokens_eq]
  have hFront := ahead_take_firstEnd ended
  obtain ⟨taken, ahead, verdict, rfl, more, settled⟩ := oneAhead_nodesOf ⟨g, lines⟩ none ts
  have hLe : taken.length ≤ firstEnd (taken ++ ahead) := by
    rw [firstEnd_append more]
    omega
  have hSame {n : Nat} {ts' : List Token} (hLe : taken.length ≤ n)
      (h : ts'.take (n + 1) = (taken ++ ahead).take (n + 1)) :
      nodesOf ⟨g, lines⟩ none ts' = leaving verdict (ts'.drop taken.length) := by
    have hTake := congrArg (List.take (taken.length + 1)) h
    rw [List.take_take, List.take_take, Nat.min_eq_left (Nat.succ_le_succ hLe)] at hTake
    obtain ⟨hSplit, hHead⟩ := exists_ahead_of_take hTake
    conv => lhs; rw [hSplit]
    exact settled _ hHead
  cases verdict with
  | ok nodes =>
    left
    refine ⟨⟨nodes⟩, ?_, ?_⟩
    · rw [settled ahead rfl]
      rfl
    · intro ts' h
      rw [hSame hLe h]
      rfl
  | error f =>
    right
    refine ⟨⟨f, ahead⟩, taken.length, ?_, List.drop_left.symm, hLe, ?_, ?_⟩
    · rw [settled ahead rfl]
      rfl
    · have hFails := hSame hLe (List.take_take.trans (by rw [Nat.min_self]))
      exact (standsAt_nodesOf hFront hFails).name
    · intro ts' h
      rw [hSame (Nat.le_refl _) h]
      rfl

/-- A chain without steps, and tokens behind the end of the input that no parse reads. -/
def emptyChain : List Token :=
  [⟨.commandName, "CHAIN", 1, 1⟩, ⟨.colon, ":", 1, 6⟩, ⟨.newline, "\n", 1, 7⟩, ⟨.indent, "  ", 2, 1⟩,
    ⟨.dedent, "", 3, 1⟩, ⟨.eof, "", 3, 1⟩, ⟨.modifierValue, "tea", 4, 1⟩, ⟨.dedent, "", 5, 1⟩]

theorem ofTokens_settled_of_empty_chain :
    (∃ t ∈ emptyChain, t.kind = .eof) ∧ firstEnd emptyChain = 5 ∧
      ∃ e, Script.ofTokens .builtin [] emptyChain = .error e ∧
        e.fault.message = "CHAIN block has no steps" ∧ e.fault.trouble.name = "ParseError" ∧
        e.ahead = emptyChain.drop 5 ∧
        ∀ ts' : List Token, ts'.take 6 = emptyChain.take 6 →
          Script.ofTokens .builtin [] ts' = .error ⟨e.fault, ts'.drop 5⟩ := by
  have hEnded : ∃ t ∈ emptyChain, t.kind = .eof := by decide +kernel
  have hVerdict : (match Script.ofTokens .builtin [] emptyChain with
      | .ok _ => none
      | .error e => some (e.fault.message, e.fault.trouble.name, e.ahead.length)) =
      some ("CHAIN block has no steps", "ParseError", 3) := by decide +kernel
  refine ⟨hEnded, by decide +kernel, ?_⟩
  obtain ⟨s, hParsed, -⟩ | ⟨e, p, hFails, hAhead, -, -, hSame⟩ :=
    ofTokens_settled .builtin [] hEnded
  · rw [hParsed] at hVerdict
    cases hVerdict
  · rw [hFails] at hVerdict
    simp only [Option.some.injEq, Prod.mk.injEq] at hVerdict
    obtain ⟨hMessage, hName, hLength⟩ := hVerdict
    have hPlace : p = 5 := by
      rw [hAhead, List.length_drop, show emptyChain.length = 8 from rfl] at hLength
      omega
    subst hPlace
    exact ⟨e, hFails, hMessage, hName, hAhead, hSame⟩

end Directive
