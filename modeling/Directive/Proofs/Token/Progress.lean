import Directive.Proofs.Token.CodeLine
import Directive.Proofs.Token.Relocated

/-!
# Scanning ends

The lexer reads arguments until its line ends, and lines until its text does. Neither loop has a bound
of its own; that they end is a matter of what each round takes.

* `ArgumentRounds`: the rounds of the loop over the arguments of a line;
* `LineRounds`: the rounds of the loop over the lines;
* `scanLines_eq_endless_iff`: a scan is endless exactly if its rounds are;
* `length_of_round`, `length_of_line`: each round takes a character, if the text has no stray blank;
* `scanning_ends`: so both loops end, and come to the tokens of the text or to a fault.
-/

namespace Directive

/-- The arguments of a line, read in some number of rounds until one finds the line at its end, which
is not counted, or fails. A round that takes nothing is followed by another one like it. -/
inductive ArgumentRounds : Cursor → Nat → Scan (List Token × Cursor) → Prop
  | ends {c : Cursor} (ended : (c.skip isIndentChar).atLineEnd = true) :
      ArgumentRounds c 0 (.ok ([], c.skip isIndentChar))
  | fails {c : Cursor} {e : LexFailure} (code : (c.skip isIndentChar).atLineEnd = false)
      (failed : argument (c.skip isIndentChar) = .error e) : ArgumentRounds c 1 (.error e)
  | round {c : Cursor} {first : List Token} {n rounds : Nat} {result : Scan (List Token × Cursor)}
      (code : (c.skip isIndentChar).atLineEnd = false)
      (taken : argument (c.skip isIndentChar) = .ok (first, n))
      (next : ArgumentRounds ((c.skip isIndentChar).advance n) rounds result) :
      ArgumentRounds c (rounds + 1) (result.map fun p => (first ++ p.1, p.2))

/-- The lines of a text, read one after another until the text is at its end or a line fails, and the
rounds that their arguments take together. -/
inductive LineRounds : Layout → Cursor → Nat → Nat → Scan (List Token) → Prop
  | done {l : Layout} {c : Cursor} (ended : c.rest = []) : LineRounds l c 0 0 (.ok (finish l c))
  | idle {l : Layout} {c : Cursor} {lines rounds : Nat} {result : Scan (List Token)}
      (more : c.rest ≠ []) (idle : c.isIdle = true)
      (next : LineRounds l ((c.skip isIndentChar).skip (· != '\n')).next lines rounds result) :
      LineRounds l c (lines + 1) rounds result
  | misplaced {l : Layout} {c : Cursor} {e : LexFailure} (more : c.rest ≠ [])
      (code : ¬ c.isIdle = true)
      (failed : l.enter (c.rest.takeWhile isIndentChar) (c.skip isIndentChar).line = .error e) :
      LineRounds l c 1 0 (.error e)
  | broken {l inner : Layout} {c : Cursor} {lead : List Token} {rounds : Nat} {e : LexFailure}
      (more : c.rest ≠ []) (code : ¬ c.isIdle = true)
      (entered : l.enter (c.rest.takeWhile isIndentChar) (c.skip isIndentChar).line =
        .ok (inner, lead))
      (failed : ArgumentRounds ((c.skip isIndentChar).advance (header (c.skip isIndentChar)).2)
        rounds (.error e)) : LineRounds l c 1 rounds (.error e)
  | line {l inner : Layout} {c last : Cursor} {lead arguments : List Token}
      {lines rounds rounds' : Nat} {result : Scan (List Token)} (more : c.rest ≠ [])
      (code : ¬ c.isIdle = true)
      (entered : l.enter (c.rest.takeWhile isIndentChar) (c.skip isIndentChar).line =
        .ok (inner, lead))
      (read : ArgumentRounds ((c.skip isIndentChar).advance (header (c.skip isIndentChar)).2)
        rounds (.ok (arguments, last)))
      (next : LineRounds inner last.next lines rounds' result) :
      LineRounds l c (lines + 1) (rounds + rounds') (result.map fun ts =>
        lead ++ (header (c.skip isIndentChar)).1 ++ arguments ++ [last.token .newline ['\n']] ++ ts)

variable {c : Cursor} {source : List Char}

theorem length_skip_le (p : Char → Bool) (c : Cursor) : (c.skip p).rest.length ≤ c.rest.length := by
  rw [Cursor.skip, Cursor.rest_advance, List.length_drop]
  exact Nat.sub_le _ _

theorem length_pos_of_code (code : c.atLineEnd = false) : 0 < c.rest.length := by
  apply List.length_pos_iff.mpr
  intro hNone
  simp [Cursor.atLineEnd, hNone] at code

/-! ### Arguments -/

/-- A round that stays where it is is followed by the same round, for ever. -/
theorem not_argumentRounds_of_still {first : List Token} {rounds : Nat}
    {result : Scan (List Token × Cursor)} (code : (c.skip isIndentChar).atLineEnd = false)
    (taken : argument (c.skip isIndentChar) = .ok (first, 0)) :
    ¬ ArgumentRounds c rounds result := by
  intro h
  induction h with
  | ends ended => rw [ended] at code; cases code
  | fails _ failed => rw [failed] at taken; cases taken
  | round _ taken' _ ih =>
    rw [taken'] at taken
    cases taken
    apply ih <;> rwa [Cursor.advance, Cursor.skip_skip]

/-- The arguments are scanned to what their rounds come to. -/
theorem scanArguments_of_rounds {rounds : Nat} {result : Scan (List Token × Cursor)}
    (h : ArgumentRounds c rounds result) : scanArguments c = .ofExcept result := by
  induction h with
  | ends ended => exact scanArguments_of_end rfl ended
  | fails code failed =>
    rw [scanArguments_of_code rfl code, failed]
    rfl
  | @round c first n rounds result code taken next ih =>
    have hTaken : 0 < n := by
      apply Nat.pos_of_ne_zero
      rintro rfl
      exact not_argumentRounds_of_still code taken (.round code taken next)
    rw [scanArguments_of_code rfl code, taken]
    change (if 0 < n then _ else _) = _
    rw [if_pos hTaken, ih]
    cases result <;> rfl

theorem length_of_taken {n : Nat} (code : (c.skip isIndentChar).atLineEnd = false) (taken : 0 < n) :
    ((c.skip isIndentChar).advance n).rest.length < c.rest.length := by
  have hSome := length_pos_of_code code
  have hSkip := length_skip_le isIndentChar c
  rw [Cursor.rest_advance, List.length_drop]
  omega

/-- Arguments that are not scanned for ever are read in no more rounds than characters. -/
theorem exists_argumentRounds (ends : scanArguments c ≠ .endless) :
    ∃ rounds result, ArgumentRounds c rounds result ∧ scanArguments c = .ofExcept result ∧
      rounds ≤ c.rest.length ∧
      ∀ ts last, result = .ok (ts, last) → rounds + last.rest.length ≤ c.rest.length := by
  induction c using Cursor.arguments_induction with
  | step c ih =>
    cases hEnd : (c.skip isIndentChar).atLineEnd with
    | true =>
      refine ⟨0, _, .ends hEnd, scanArguments_of_end rfl hEnd, Nat.zero_le _, ?_⟩
      rintro ts last ⟨⟩
      rw [Nat.zero_add]
      exact length_skip_le _ _
    | false =>
      rw [scanArguments_of_code rfl hEnd] at ends
      rcases hFirst : argument (c.skip isIndentChar) with e | ⟨first, n⟩
      · have hSome := length_pos_of_code hEnd
        have hSkip := length_skip_le isIndentChar c
        have hRounds := ArgumentRounds.fails hEnd hFirst
        exact ⟨1, .error e, hRounds, scanArguments_of_rounds hRounds, by omega, nofun⟩
      rw [hFirst] at ends
      change (if 0 < n then _ else _) ≠ _ at ends
      have hTaken : 0 < n := by
        apply Nat.pos_of_ne_zero
        rintro rfl
        exact ends rfl
      have hMore : scanArguments ((c.skip isIndentChar).advance n) ≠ .endless := by
        intro hStays
        dsimp only at ends
        rw [if_pos hTaken, hStays] at ends
        exact ends rfl
      obtain ⟨rounds, result, hNext, -, hLe, hLast⟩ := ih first n hEnd hFirst hTaken hMore
      have hShorter := length_of_taken hEnd hTaken
      have hRounds := ArgumentRounds.round hEnd hFirst hNext
      refine ⟨rounds + 1, _, hRounds, scanArguments_of_rounds hRounds, by omega, ?_⟩
      intro ts last h
      rcases result with e | ⟨more, last'⟩
      · cases h
      · cases h
        have hBound := hLast more last' rfl
        dsimp only
        omega

/-- A round of the arguments takes at least one character. -/
theorem length_of_round (plain : ¬ HasStrayBlank source) (into : c.Into source)
    {first : List Token} {n : Nat} (code : (c.skip isIndentChar).atLineEnd = false)
    (taken : argument (c.skip isIndentChar) = .ok (first, n)) :
    0 < n ∧ ((c.skip isIndentChar).advance n).rest.length < c.rest.length := by
  have hTaken : 0 < n := by
    apply Nat.pos_of_ne_zero
    rintro rfl
    exact plain (hasStrayBlank_of_argument into code taken)
  exact ⟨hTaken, length_of_taken code hTaken⟩

/-- A line takes at least one character. -/
theorem length_of_line {l inner : Layout} {last : Cursor} {ts : List Token} (more : c.rest ≠ [])
    (h : scanLine l c = .ok (ts, inner, last)) : last.next.rest.length < c.rest.length := by
  have hSome : 0 < c.rest.length := List.length_pos_iff.mpr more
  have hLast := scanLine_le h
  rw [Cursor.rest_next, List.length_drop]
  omega

/-! ### Lines -/

/-- An idle line adds nothing to the lines after it. -/
theorem scanLines_of_idle (l : Layout) (more : c.rest ≠ []) (idle : c.isIdle = true) :
    scanLines l c = scanLines l ((c.skip isIndentChar).skip (· != '\n')).next := by
  rw [scanLines_next more (scanLine_of_idle l idle)]
  cases scanLines l ((c.skip isIndentChar).skip (· != '\n')).next <;> rfl

/-- A text is scanned to what its rounds come to. -/
theorem scanLines_of_rounds {l : Layout} {lines rounds : Nat} {result : Scan (List Token)}
    (h : LineRounds l c lines rounds result) : scanLines l c = .ofExcept result := by
  induction h with
  | done ended => exact scanLines_of_nil _ ended
  | idle more idle _ ih => rw [scanLines_of_idle _ more idle, ih]
  | misplaced more code failed =>
    apply scanLines_of_error more
    rw [scanLine_of_not_idle _ code, failed]
  | broken more code entered failed =>
    apply scanLines_of_error more
    rw [scanLine_of_not_idle _ code, entered, scanArguments_of_rounds failed]
    rfl
  | @line l inner c last lead arguments lines rounds rounds' result more code entered read _ ih =>
    have hLine := scanLine_of_not_idle l code
    rw [entered, scanArguments_of_rounds read] at hLine
    rw [scanLines_next more hLine, ih]
    cases result <;> rfl

/-- A text that is not scanned for ever is scanned in no more lines and rounds than it has characters. -/
theorem exists_lineRounds {l : Layout} (ends : scanLines l c ≠ .endless) :
    ∃ lines rounds result, LineRounds l c lines rounds result ∧
      scanLines l c = .ofExcept result ∧ lines ≤ c.rest.length ∧ rounds ≤ c.rest.length ∧
      lines + rounds ≤ c.rest.length + 1 := by
  suffices h : ∃ lines rounds result, LineRounds l c lines rounds result ∧ lines ≤ c.rest.length ∧
      rounds ≤ c.rest.length ∧ lines + rounds ≤ c.rest.length + 1 by
    obtain ⟨lines, rounds, result, hRounds, hBounds⟩ := h
    exact ⟨lines, rounds, result, hRounds, scanLines_of_rounds hRounds, hBounds⟩
  induction hLength : c.rest.length using Nat.strongRecOn generalizing c l with
  | ind n ih =>
    subst hLength
    by_cases hMore : c.rest = []
    · exact ⟨0, 0, _, .done hMore, Nat.zero_le _, Nat.zero_le _, Nat.zero_le _⟩
    have hSome : 0 < c.rest.length := List.length_pos_iff.mpr hMore
    by_cases hIdle : c.isIdle = true
    · rw [scanLines_of_idle l hMore hIdle] at ends
      have hShorter := length_of_line hMore (scanLine_of_idle l hIdle)
      obtain ⟨lines, rounds, result, hRounds, hLines, hAll, hBoth⟩ := ih _ hShorter ends rfl
      exact ⟨lines + 1, rounds, result, .idle hMore hIdle hRounds, by omega, by omega, by omega⟩
    have hLine := scanLine_of_not_idle l hIdle
    rcases hEnter : l.enter (c.rest.takeWhile isIndentChar) (c.skip isIndentChar).line with
      e | ⟨inner, lead⟩
    · exact ⟨1, 0, _, .misplaced hMore hIdle hEnter, hSome, Nat.zero_le _, by omega⟩
    rw [hEnter] at hLine
    dsimp only at hLine
    have hCode : ((c.skip isIndentChar).advance (header (c.skip isIndentChar)).2).rest.length ≤
        c.rest.length := by
      have hSkip := length_skip_le isIndentChar c
      rw [Cursor.rest_advance, List.length_drop]
      omega
    have hEnds : scanArguments ((c.skip isIndentChar).advance (header (c.skip isIndentChar)).2) ≠
        .endless := by
      intro hStays
      rw [hStays] at hLine
      exact ends (scanLines_of_endless hMore hLine)
    obtain ⟨rounds, result, hRounds, hSame, hLe, hLast⟩ := exists_argumentRounds hEnds
    rw [hSame] at hLine
    rcases result with e | ⟨arguments, last⟩
    · exact ⟨1, rounds, _, .broken hMore hIdle hEnter hRounds, hSome, by omega, by omega⟩
    · have hBound := hLast arguments last rfl
      have hShorter := length_of_line hMore hLine
      have hNext : last.next.rest.length = last.rest.length - 1 := by
        rw [Cursor.rest_next, List.length_drop]
      have hRest : scanLines inner last.next ≠ .endless := by
        intro hStays
        rw [scanLines_next hMore hLine, hStays] at ends
        exact ends rfl
      obtain ⟨lines, rounds', result, hRounds', hLines, hAll, hBoth⟩ := ih _ hShorter hRest rfl
      exact ⟨lines + 1, rounds + rounds', _, .line hMore hIdle hEnter hRounds hRounds', by omega,
        by omega, by omega⟩

/-- A scan is endless exactly if its rounds have no end. -/
theorem scanLines_eq_endless_iff {l : Layout} : scanLines l c = .endless ↔
    ∀ lines rounds result, ¬ LineRounds l c lines rounds result := by
  constructor
  · intro stays lines rounds result h
    rw [scanLines_of_rounds h] at stays
    cases result <;> cases stays
  · intro never
    by_contra hEnds
    obtain ⟨lines, rounds, result, hRounds, -⟩ := exists_lineRounds hEnds
    exact never lines rounds result hRounds

/-! ### Texts without a stray blank -/

theorem hasStrayBlank_of_scanArguments (into : c.Into source) (h : scanArguments c = .endless) :
    HasStrayBlank source := by
  fun_induction scanArguments c with
  | case1 => cases h
  | case2 => cases h
  | case3 => cases h
  | case4 => cases h
  | case5 c here _ _ n _ _ hMore ih => exact ih ((into.skip _).advance n) hMore
  | case6 c here hCode first n hFirst hNone =>
    have hZero : n = 0 := by omega
    subst hZero
    exact hasStrayBlank_of_argument into (by simpa using hCode) hFirst

theorem hasStrayBlank_of_scanLine {l : Layout} (into : c.Into source)
    (h : scanLine l c = .endless) : HasStrayBlank source := by
  unfold scanLine at h
  dsimp only at h
  split at h
  · cases h
  split at h
  · cases h
  split at h
  · cases h
  · cases h
  · rename_i hStays
    exact hasStrayBlank_of_scanArguments ((into.advance _).advance _) hStays

/-- Only a stray blank keeps a scan from ending. -/
theorem hasStrayBlank_of_scanLines {l : Layout} (into : c.Into source)
    (h : scanLines l c = .endless) : HasStrayBlank source := by
  fun_induction scanLines l c with
  | case1 => cases h
  | case2 => cases h
  | case3 => cases h
  | case4 => cases h
  | case5 => cases h
  | case6 l c _ _ _ _ hFirst _ hMore ih => exact ih (into_scanLine into hFirst).next hMore
  | case7 l c _ hLine => exact hasStrayBlank_of_scanLine into hLine

/-- A hyphen that stands first when line ends are joined stood first before. -/
theorem of_joinLineEnds_hyphen {text more : List Char} (h : Text.joinLineEnds text = '-' :: more) :
    ∃ rest, text = '-' :: rest ∧ more = Text.joinLineEnds rest := by
  unfold Text.joinLineEnds at h
  split at h
  · cases h
  · cases h
    exact ⟨_, rfl, rfl⟩
  · cases h

/-- Joining line ends puts no blank in front of two hyphens. -/
theorem hasStrayBlank_of_joinLineEnds {text : List Char}
    (h : HasStrayBlank (Text.joinLineEnds text)) : HasStrayBlank text := by
  fun_induction Text.joinLineEnds text with
  | case1 cs ih =>
    obtain ⟨⟨-, -, hLine⟩, -⟩ | hMore := hasStrayBlank_cons.mp h
    · exact absurd rfl hLine
    · exact hasStrayBlank_cons.mpr (.inr (hasStrayBlank_cons.mpr (.inr (ih hMore))))
  | case2 c cs _ ih =>
    obtain ⟨hBlank, rest, hDashes⟩ | hMore := hasStrayBlank_cons.mp h
    · obtain ⟨cs, rfl, hNext⟩ := of_joinLineEnds_hyphen hDashes.symm
      obtain ⟨cs, rfl, -⟩ := of_joinLineEnds_hyphen hNext.symm
      exact hasStrayBlank_cons.mpr (.inl ⟨hBlank, cs, rfl⟩)
    · exact hasStrayBlank_cons.mpr (.inr (ih hMore))
  | case3 => exact h

/-- The lexer comes to an end on the text: the rounds of its two loops are finitely many. -/
def ScanningEnds (text : String) : Prop :=
  ∃ lines rounds result,
    LineRounds {} (.start (Text.joinLineEnds text.toList)) lines rounds result

theorem tokens_eq_endless_iff {text : String} :
    Token.ofText text = .endless ↔ ¬ ScanningEnds text := by
  rw [Token.ofText, Upshot.mapError_eq_endless, scanLines_eq_endless_iff, ScanningEnds]
  push Not
  rfl

theorem scanLines_ne_endless {text : String} (plain : ¬ HasStrayBlank text.toList) :
    scanLines {} (.start (Text.joinLineEnds text.toList)) ≠ .endless :=
  fun stays => plain (hasStrayBlank_of_joinLineEnds (hasStrayBlank_of_scanLines (.start _) stays))

theorem scanningEnds_of_plain {text : String} (plain : ¬ HasStrayBlank text.toList) :
    ScanningEnds text := by
  obtain ⟨lines, rounds, result, hRounds, -⟩ := exists_lineRounds (scanLines_ne_endless plain)
  exact ⟨lines, rounds, result, hRounds⟩

/-- **Scanning ends.** In a text without a stray blank every round of the arguments and every line takes
at least one character, so both loops end: with the tokens of the text, or with its fault. -/
theorem scanning_ends {text : String} (plain : ¬ HasStrayBlank text.toList) :
    (∀ (c : Cursor) (first : List Token) (n : Nat), c.Into (Text.joinLineEnds text.toList) →
      (c.skip isIndentChar).atLineEnd = false → argument (c.skip isIndentChar) = .ok (first, n) →
        ((c.skip isIndentChar).advance n).rest.length < c.rest.length) ∧
    (∀ (l inner : Layout) (c last : Cursor) (ts : List Token), c.rest ≠ [] →
      scanLine l c = .ok (ts, inner, last) → last.next.rest.length < c.rest.length) ∧
    ∃ lines rounds result,
      LineRounds {} (.start (Text.joinLineEnds text.toList)) lines rounds result ∧
      lines ≤ (Text.joinLineEnds text.toList).length ∧
      rounds ≤ (Text.joinLineEnds text.toList).length ∧
      lines + rounds ≤ (Text.joinLineEnds text.toList).length + 1 ∧
      ((∃ ts, result = .ok ts ∧ Token.ofText text = .ok ts) ∨
        ∃ e f, result = .error e ∧ Token.ofText text = .error f ∧
          f = e.toFault (Text.lines text) ∧ f.trouble.name = "LexError") := by
  have hPlain : ¬ HasStrayBlank (Text.joinLineEnds text.toList) :=
    mt hasStrayBlank_of_joinLineEnds plain
  refine ⟨?_, ?_, ?_⟩
  · intro c first n into code taken
    exact (length_of_round hPlain into code taken).2
  · intro l inner c last ts more line
    exact length_of_line more line
  obtain ⟨lines, rounds, result, hRounds, hScanned, hLines, hAll, hBoth⟩ :=
    exists_lineRounds (scanLines_ne_endless plain)
  refine ⟨lines, rounds, result, hRounds, hLines, hAll, hBoth, ?_⟩
  rw [Token.ofText, hScanned]
  cases result with
  | error e => exact .inr ⟨e, _, rfl, rfl, rfl, rfl⟩
  | ok ts => exact .inl ⟨ts, rfl, rfl⟩

theorem scanning_ends_of_fixed_spaces :
    ¬ HasStrayBlank "SEARCH: green\u00a0tea\u00a0 --focus=a\r\n# \u00a0".toList ∧
      ∃ lines rounds ts,
        LineRounds {} (.start "SEARCH: green\u00a0tea\u00a0 --focus=a\n# \u00a0".toList) lines rounds
          (.ok ts) ∧
        lines ≤ 32 ∧ rounds ≤ 32 ∧
        Token.ofText "SEARCH: green\u00a0tea\u00a0 --focus=a\r\n# \u00a0" = .ok ts := by
  generalize hText : "SEARCH: green\u00a0tea\u00a0 --focus=a\r\n# \u00a0" = text
  have hPlain : ¬ HasStrayBlank text.toList := by
    subst hText
    decide +kernel
  have hSource : Text.joinLineEnds text.toList =
      "SEARCH: green\u00a0tea\u00a0 --focus=a\n# \u00a0".toList := by
    subst hText
    decide +kernel
  have hLength : (Text.joinLineEnds text.toList).length = 32 := by
    subst hText
    decide +kernel
  have hRead : (Token.ofText text).toOption.isSome = true := by
    subst hText
    decide +kernel
  obtain ⟨-, -, lines, rounds, result, hRounds, hLines, hAll, -, hResult⟩ := scanning_ends hPlain
  rw [hSource] at hRounds
  rw [hLength] at hLines hAll
  refine ⟨hPlain, ?_⟩
  obtain ⟨ts, rfl, hTokens⟩ | ⟨e, f, -, hFails, -⟩ := hResult
  · exact ⟨lines, rounds, ts, hRounds, hLines, hAll, hTokens⟩
  · rw [hFails] at hRead
    cases hRead

end Directive
