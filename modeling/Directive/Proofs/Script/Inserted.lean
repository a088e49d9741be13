import Directive.Proofs.Script.Concat

/-!
# Lines that say nothing

A blank line or a comment may be put in front of any line of a text, and what the text says remains.

* `below`: the places of a text behind a line that has been put into it;
* `Scans.split`: the lines of a text in front of a line of it, and those from there on;
* `scans_inserted`, `ofText_inserted_tokens`: the tokens of the longer text;
* `ofText_inserted`: its script.
-/

namespace Directive

/-- The place of what stood there before a line was put in front of line `n`. -/
def below (n line column : Int) : Int × Int := (if line < n then line else line + 1, column)

theorem Token.relocate_below_of_lt {n : Int} {t : Token} (h : t.line < n) :
    t.relocate (below n) = t.relocate (downBy 0) := by
  rw [relocate, relocate, below, downBy, if_pos h]
  simp

theorem Token.relocate_below_of_le {n : Int} {t : Token} (h : n ≤ t.line) :
    t.relocate (below n) = t.relocate (downBy 1) := by
  rw [relocate, relocate, below, downBy, if_neg (by omega)]

/-! ### Tokens -/

/-- The lines of tokens from a cursor on, and of the end of the text. -/
theorem Scans.line_le {l final : Layout} {c last : Cursor} {ts : List Token}
    (h : Scans l c ts final last) : c.line ≤ last.line ∧ ∀ t ∈ ts, c.line ≤ t.line := by
  induction h with
  | done => simp
  | last _ line _ =>
    obtain ⟨taken, hTaken⟩ := scanLine_passes line
    have hLine := hTaken.line
    exact ⟨by omega, fun t ht => (hTaken.lines t ht).1⟩
  | @line _ _ _ c lineEnd _ first ts _ line _ _ ih =>
    obtain ⟨taken, hTaken⟩ := scanLine_passes line
    have hLine := hTaken.line
    have hNext := lineEnd.line_le_next
    refine ⟨by omega, ?_⟩
    intro t ht
    rcases List.mem_append.mp ht with ht | ht
    · exact (hTaken.lines t ht).1
    · have hMore := ih.2 t ht
      omega

/-- Where a line ends that a later line of the text stands behind. -/
theorem split_of_line {front back taken more : List Char}
    (split : front ++ back = taken ++ '\n' :: more) (behind : taken.count '\n' < front.count '\n') :
    ∃ front', front = taken ++ '\n' :: front' ∧ more = front' ++ back := by
  obtain ⟨left, rfl, hMore⟩ | ⟨left, rfl, -⟩ := List.append_eq_append_iff.mp split.symm
  · rcases left with _ | ⟨ch, left⟩
    · rw [List.append_nil] at behind
      omega
    · obtain ⟨rfl, rfl⟩ := List.cons.inj hMore
      exact ⟨left, rfl, rfl⟩
  · rw [List.count_append] at behind
    omega

/-- A line of a text in front of others than those of the text. -/
theorem Scans.behind_line {l inner final : Layout} {c lineEnd last : Cursor}
    {taken front : List Char} {first ts : List Token}
    (h : Scans inner { lineEnd.next with rest := front } ts final last)
    (line : scanLine l c = .ok (first, inner, lineEnd)) (more : lineEnd.rest ≠ [])
    (passes : Passes c lineEnd taken first) :
    Scans l { c with rest := taken ++ '\n' :: front } (first ++ ts) final last := by
  obtain ⟨hNextLine, hNextColumn⟩ := next_of_atLineEnd (end_of_scanLine line).1 more
  have hHere : ({ c with rest := taken } : Cursor).onto lineEnd.rest = c := by
    rw [Cursor.onto, ← passes.split]
  have hFirst := scanLine_onto (by rw [hHere]; exact line) rfl (.cons front) (by simp [more])
  have hNext : ({ lineEnd with rest := '\n' :: front } : Cursor).next =
      { lineEnd.next with rest := front } := by
    change (⟨front, lineEnd.line + 1, 1⟩ : Cursor) = ⟨front, lineEnd.next.line, lineEnd.next.column⟩
    rw [hNextLine, hNextColumn]
  exact .line (by simp) hFirst (List.cons_ne_nil _ _) (hNext ▸ h)

/-- A text with a line start in it that is not inside a block string: first the lines in front of it
are read, and then those from there on. -/
theorem Scans.split {l final : Layout} {c last : Cursor} {ts : List Token} {front back : List Char}
    (h : Scans l c ts final last) (split : c.rest = front ++ back)
    (whole : front = [] ∨ front.getLast? = some '\n')
    (outside : ¬ InsideBlock ts (c.line + front.count '\n')) :
    ∃ first mid second, ts = first ++ second ∧
      (∀ t ∈ first, t.line < c.line + front.count '\n') ∧
      Scans l { c with rest := front } first mid { c.advance front.length with rest := [] } ∧
      Scans mid (c.advance front.length) second final last := by
  induction h generalizing front with
  | @done l c ended =>
    obtain ⟨rfl, -⟩ := List.append_eq_nil_iff.mp (split.symm.trans ended)
    exact ⟨[], l, [], rfl, by simp, .done rfl, .done ended⟩
  | @last l inner c last ts code line ended =>
    obtain rfl | hLast := whole
    · exact ⟨[], l, ts, rfl, by simp, .done rfl, .last code line ended⟩
    -- The text is one line, and every line end in it is inside a block string.
    obtain ⟨taken, hTaken⟩ := scanLine_passes line
    have hSplit := hTaken.split
    rw [ended, List.append_nil, split] at hSplit
    have hPos : 0 < front.count '\n' := List.count_pos_iff.mpr (List.mem_of_getLast? hLast)
    have hLine := hTaken.line
    rw [← hSplit, List.count_append] at hLine
    exact absurd (hTaken.inside _ (by omega) (by omega)) outside
  | @line l inner final c lineEnd last first ts code line more next ih =>
    obtain rfl | hLast := whole
    · exact ⟨[], l, first ++ ts, rfl, by simp, .done rfl, .line code line more next⟩
    obtain ⟨taken, hTaken⟩ := scanLine_passes line
    have hPos : 0 < front.count '\n' := List.count_pos_iff.mpr (List.mem_of_getLast? hLast)
    have hBehind : lineEnd.line < c.line + front.count '\n' := by
      by_contra hInside
      exact outside ((hTaken.inside _ (by omega) (by omega)).mono (List.subset_append_left _ _))
    have hEnd := (end_of_scanLine line).1
    have hRest := rest_of_atLineEnd hEnd more
    have hSplit := hTaken.split
    have hLine := hTaken.line
    rw [hRest, split] at hSplit
    obtain ⟨front', rfl, hMore⟩ := split_of_line hSplit (by omega)
    obtain ⟨hNextLine, hNextColumn⟩ := next_of_atLineEnd hEnd more
    have hCount : lineEnd.next.line + front'.count '\n' =
        c.line + (taken ++ '\n' :: front').count '\n' := by
      rw [List.count_append, List.count_cons_self]
      omega
    have hWhole : front' = [] ∨ front'.getLast? = some '\n' := by
      rcases front' with _ | ⟨ch, front'⟩
      · exact .inl rfl
      · right
        simpa [List.getLast?_append] using hLast
    obtain ⟨first', mid, second, rfl, hFirst', hFront, hBack⟩ := ih hMore hWhole fun hInside =>
      outside (hCount ▸ hInside.mono (List.subset_append_right _ _))
    have hAdvance : c.advance (taken ++ '\n' :: front').length =
        lineEnd.next.advance front'.length := by
      rw [List.length_append, ← Cursor.advance_advance, hTaken.here]
      rfl
    refine ⟨first ++ first', mid, second, (List.append_assoc _ _ _).symm, ?_, ?_, ?_⟩
    · intro t ht
      rcases List.mem_append.mp ht with ht | ht
      · have hPlace := hTaken.lines t ht
        omega
      · exact hCount ▸ hFirst' t ht
    · rw [hAdvance]
      exact hFront.behind_line line more hTaken
    · rwa [hAdvance]

/-- A line without tokens is passed up to its end. -/
theorem scanLine_unread {unread : List Char} (h : UnreadLine unread) (l : Layout) (back : List Char)
    (line column : Int) : ∃ column',
      scanLine l ⟨unread ++ '\n' :: back, line, column⟩ = .ok ([], l, ⟨'\n' :: back, line, column'⟩) := by
  have hSkip {run rest : List Char} (blanks : ∀ c ∈ run, isIndentChar c = true)
      (stops : ∀ c ∈ rest.head?, isIndentChar c = false) :
      Cursor.skip isIndentChar ⟨run ++ rest, line, column⟩ = ⟨rest, line, column + run.length⟩ := by
    apply Cursor.skip_append blanks stops
    intro hEnd
    exact absurd (blanks _ hEnd) (by decide)
  cases h with
  | blank blanks =>
    have hEnd := @hSkip _ ('\n' :: back) blanks (by simp [isIndentChar])
    refine ⟨column + unread.length, ?_⟩
    rw [scanLine_of_idle l (by rw [Cursor.isIdle, hEnd]; rfl), hEnd]
    rfl
  | @comment run text blanks oneLine =>
    have hHash := @hSkip _ ('#' :: (text ++ '\n' :: back)) blanks (by simp [isIndentChar])
    have hEnd : Cursor.skip (· != '\n')
        ⟨'#' :: text ++ '\n' :: back, line, column + run.length⟩ =
          ⟨'\n' :: back, line, column + run.length + ('#' :: text).length⟩ := by
      have hLine : '\n' ∉ '#' :: text := by simpa using oneLine
      apply Cursor.skip_append _ (by simp) hLine
      intro c hc
      rw [bne_iff_ne]
      rintro rfl
      exact hLine hc
    refine ⟨column + run.length + ('#' :: text).length, ?_⟩
    rw [List.append_assoc, List.cons_append, scanLine_of_idle l (by rw [Cursor.isIdle, hHash]; rfl),
      hHash, ← List.cons_append, hEnd]

/-- The lines of a text that a line without tokens is put into. -/
theorem scans_inserted {front back unread : List Char} {final : Layout} {last : Cursor}
    {ts : List Token} (h : Scans {} (.start (front ++ back)) ts final last)
    (whole : front = [] ∨ front.getLast? = some '\n')
    (outside : ¬ InsideBlock ts (1 + front.count '\n')) (idle : UnreadLine unread) :
    1 + front.count '\n' ≤ last.line ∧ Scans {} (.start (front ++ (unread ++ '\n' :: back)))
      (ts.map (Token.relocate (below (1 + front.count '\n')))) final (last.moved 1 []) := by
  obtain ⟨first, mid, second, rfl, hEarlier, hFirst, hSecond⟩ := h.split rfl whole outside
  have hHere : (Cursor.start (front ++ back)).advance front.length =
      ⟨back, 1 + front.count '\n', 1⟩ := by
    rw [Cursor.start, Cursor.advance_append, columnAfter_of_whole whole]
  rw [hHere] at hFirst hSecond
  obtain ⟨hLast, hLater⟩ := hSecond.line_le
  have hPlaces : (first ++ second).map (Token.relocate (below (1 + front.count '\n'))) =
      first.map (Token.relocate (downBy 0)) ++ second.map (Token.relocate (downBy 1)) := by
    rw [List.map_append]
    congr 1
    · exact List.map_congr_left fun t ht => Token.relocate_below_of_lt (hEarlier t ht)
    · exact List.map_congr_left fun t ht => Token.relocate_below_of_le (hLater t ht)
  have hEnded : (last.moved 1 []).rest = [] := by
    rw [Cursor.rest_moved, List.append_nil]
    exact hSecond.ended
  have hBack := hSecond.moved (.inl (.nil _)) (.done hEnded)
  obtain ⟨column, hUnread⟩ := scanLine_unread idle mid back (1 + front.count '\n') 1
  have hBehind : Scans mid ⟨unread ++ '\n' :: back, 1 + front.count '\n', 1⟩
      ([] ++ second.map (Token.relocate (downBy 1))) final (last.moved 1 []) := by
    apply Scans.line (by simp) hUnread (List.cons_ne_nil _ _)
    rwa [List.append_nil, Cursor.moved, List.append_nil] at hBack
  have hHere' : (⟨[], 1 + front.count '\n', 1⟩ : Cursor).moved 0 (unread ++ '\n' :: back) =
      ⟨unread ++ '\n' :: back, 1 + front.count '\n', 1⟩ := by simp [Cursor.moved]
  rw [← hHere'] at hBehind
  have hApart : Apart front (unread ++ '\n' :: back) ∨ front = [] := whole.symm.imp_left .inr
  rw [hPlaces]
  exact ⟨hLast, hFirst.moved hApart hBehind⟩

theorem UnreadLine.oneLine {unread : List Char} (h : UnreadLine unread) : '\n' ∉ unread := by
  have hRun {run : List Char} (blanks : ∀ c ∈ run, isIndentChar c = true) : '\n' ∉ run := by
    intro hEnd
    exact absurd (blanks _ hEnd) (by decide)
  cases h with
  | blank blanks => exact hRun blanks
  | comment blanks oneLine => simp [hRun blanks, oneLine]

/-- A carriage return is no blank of an indentation, so it can only be the end of a comment. -/
theorem UnreadLine.of_return {unread : List Char} (h : UnreadLine (unread ++ ['\r'])) :
    UnreadLine unread := by
  generalize hWhole : unread ++ ['\r'] = whole at h
  cases h with
  | blank blanks =>
    subst hWhole
    exact absurd (blanks '\r' (by simp)) (by decide)
  | @comment run text blanks oneLine =>
    rcases List.eq_nil_or_concat text with rfl | ⟨text, ch, rfl⟩
    · have hLast := congrArg List.getLast? hWhole
      simp at hLast
    · rw [List.concat_eq_append, ← List.cons_append, ← List.append_assoc] at hWhole
      obtain ⟨rfl, -⟩ := List.append_inj' hWhole rfl
      exact .comment blanks fun hEnd => oneLine (by simp [hEnd])

/-- Where line ends are joined, a line without tokens remains one. -/
theorem UnreadLine.joined {unread lineEnd : List Char} (h : UnreadLine unread)
    (ended : lineEnd = ['\n'] ∨ lineEnd = ['\r', '\n']) :
    ∃ unread', UnreadLine unread' ∧ Text.joinLineEnds (unread ++ lineEnd) = unread' ++ ['\n'] := by
  have hReturn {text : List Char} (oneLine : '\n' ∉ text) :
      Text.joinLineEnds (text ++ ['\r', '\n']) = text ++ ['\n'] := by
    rw [Text.joinLineEnds_append (.inr (by simp)),
      Text.joinLineEnds_of_no_pair fun hPair => oneLine (hPair.subset (by simp))]
    rfl
  obtain rfl | rfl := ended
  · by_cases hLast : unread.getLast? = some '\r'
    · obtain ⟨text, rfl⟩ := List.getLast?_eq_some_iff.mp hLast
      refine ⟨text, h.of_return, ?_⟩
      rw [List.append_assoc]
      exact hReturn h.of_return.oneLine
    · refine ⟨unread, h, ?_⟩
      rw [Text.joinLineEnds_append (.inl hLast),
        Text.joinLineEnds_of_no_pair fun hPair => h.oneLine (hPair.subset (by simp))]
      rfl
  · exact ⟨unread, h, hReturn h.oneLine⟩

theorem line_of_finish {l : Layout} {c : Cursor} {t : Token} (h : t ∈ finish l c) :
    t.line = c.line := by
  rcases List.mem_append.mp h with h | h
  · obtain ⟨_, -, rfl⟩ := List.mem_map.mp h
    rfl
  · rw [List.mem_singleton.mp h]
    rfl

/-- **Tokens around a line that says nothing.** -/
theorem ofText_inserted_tokens {front back unread lineEnd : String} {ts : List Token}
    (h : Token.ofText (front ++ back) = .ok ts)
    (whole : front = "" ∨ front.toList.getLast? = some '\n')
    (outside : ¬ InsideBlock ts (1 + front.toList.count '\n')) (idle : UnreadLine unread.toList)
    (ended : lineEnd = "\n" ∨ lineEnd = "\r\n") :
    Token.ofText (front ++ (unread ++ lineEnd) ++ back) =
      .ok (ts.map (Token.relocate (below (1 + front.toList.count '\n')))) := by
  have hWhole : Text.joinLineEnds front.toList = [] ∨
      (Text.joinLineEnds front.toList).getLast? = some '\n' := by
    obtain rfl | hLast := whole
    · exact .inl rfl
    · exact .inr (Text.getLast?_joinLineEnds hLast)
  have hFront (more : List Char) : Text.joinLineEnds (front.toList ++ more) =
      Text.joinLineEnds front.toList ++ Text.joinLineEnds more := by
    apply Text.joinLineEnds_append
    left
    obtain rfl | hLast := whole
    · simp
    · simp [hLast]
  have hEnded : lineEnd.toList = ['\n'] ∨ lineEnd.toList = ['\r', '\n'] := by
    obtain rfl | rfl := ended
    · exact .inl rfl
    · exact .inr rfl
  obtain ⟨unread', hIdle, hUnread⟩ := idle.joined hEnded
  have hLineEnd : (unread.toList ++ lineEnd.toList).getLast? ≠ some '\r' := by
    obtain h | h := hEnded <;> simp [h]
  rw [ofText_eq_ok_iff, String.toList_append, hFront] at h
  rw [ofText_eq_ok_iff, String.toList_append, String.toList_append, String.toList_append,
    List.append_assoc, hFront, Text.joinLineEnds_append (.inl hLineEnd), hUnread, List.append_assoc]
  rw [← Text.count_joinLineEnds] at outside ⊢
  obtain ⟨lines, final, last, rfl, hScans⟩ := scans_of_scanLines h
  obtain ⟨hLast, hInserted⟩ := scans_inserted hScans hWhole
    (fun hInside => outside (hInside.mono (List.subset_append_left _ _))) hIdle
  have hFinish : (finish final last).map
      (Token.relocate (below (1 + (Text.joinLineEnds front.toList).count '\n'))) =
      finish final (last.moved 1 []) := by
    rw [finish_moved]
    apply List.map_congr_left
    intro t ht
    apply Token.relocate_below_of_le
    rwa [line_of_finish ht]
  rw [List.map_append, hFinish]
  exact scanLines_of_scans hInserted

/-! ### Scripts -/

/-- **Lines that say nothing.** Where a text parses, so does the text with a line of blanks or a
comment put in front of any of its lines, or behind the last, unless that is inside a block string.
The script is the same, and what stood there or further down stands one line lower. -/
theorem ofText_inserted {g : Grammar} {front back unread lineEnd : String} {s : Script}
    (parsed : Script.ofText g (front ++ back) = .ok s)
    (whole : front = "" ∨ front.toList.getLast? = some '\n')
    (outside : ∀ ts, Token.ofText (front ++ back) = .ok ts →
      ¬ InsideBlock ts (1 + front.toList.count '\n'))
    (idle : UnreadLine unread.toList) (ended : lineEnd = "\n" ∨ lineEnd = "\r\n") :
    Script.ofText g (front ++ (unread ++ lineEnd) ++ back) =
      .ok ⟨s.items.map (Node.relocate (below (1 + front.toList.count '\n')))⟩ := by
  obtain ⟨ts, rest, hTokens, hReads⟩ := reads_of_ofText parsed
  have hInserted := ofText_inserted_tokens hTokens whole (outside ts hTokens) idle ended
  let c : ParseContext := ⟨g, Script.quotableLines (front ++ (unread ++ lineEnd) ++ back)⟩
  obtain ⟨rest', hMoved⟩ := reads_relocate (below (1 + front.toList.count '\n')) hReads
    (show c.grammar = g from rfl) (laid_of_ofText hTokens)
  exact ofText_of_reads hInserted hMoved

theorem ofText_inserted_before_dedent :
    ∃ s, Script.ofText .builtin "CHAIN:\n  CHAIN:\n    SEARCH: \"tea\"\n  SEARCH: \"pot\"" = .ok s ∧
      Script.ofText .builtin ("CHAIN:\n  CHAIN:\n    SEARCH: \"tea\"\n" ++
        ("\t \t# \"\"\"say" ++ "\r\n") ++ "  SEARCH: \"pot\"") =
        .ok ⟨s.items.map (Node.relocate (below 4))⟩ := by
  generalize hFrontText : "CHAIN:\n  CHAIN:\n    SEARCH: \"tea\"\n" = front
  generalize hBackText : "  SEARCH: \"pot\"" = back
  have hWhole : "CHAIN:\n  CHAIN:\n    SEARCH: \"tea\"\n  SEARCH: \"pot\"" = front ++ back := by
    subst hFrontText hBackText
    rfl
  rw [hWhole]
  have hParsed : (Script.ofText .builtin (front ++ back)).toOption.isSome = true := by
    subst hFrontText hBackText
    decide +kernel
  have hPlain : (Token.ofText (front ++ back)).toOption.all
      (fun ts => ts.all fun t => t.kind != .blockString) = true := by
    subst hFrontText hBackText
    decide +kernel
  have hLines : front.toList.count '\n' = 3 := by
    subst hFrontText
    decide +kernel
  have hEnded : front.toList.getLast? = some '\n' := by
    subst hFrontText
    decide +kernel
  obtain ⟨s, hScript⟩ := Upshot.exists_of_isSome hParsed
  have hOutside (ts : List Token) (hTokens : Token.ofText (front ++ back) = .ok ts) :
      ¬ InsideBlock ts (1 + front.toList.count '\n') := by
    rintro ⟨t, ht, hKind, -⟩
    rw [hTokens] at hPlain
    have hOther := List.all_eq_true.mp hPlain t ht
    rw [hKind] at hOther
    cases hOther
  have hComment : "\t \t# \"\"\"say".toList =
      ['\t', ' ', '\t'] ++ '#' :: [' ', '"', '"', '"', 's', 'a', 'y'] := by
    decide +kernel
  have hIdle : UnreadLine "\t \t# \"\"\"say".toList := by
    rw [hComment]
    exact .comment (by simp [isIndentChar]) (by simp)
  have hInserted := ofText_inserted hScript (.inr hEnded) hOutside hIdle (.inr rfl)
  rw [hLines] at hInserted
  exact ⟨s, hScript, hInserted⟩

end Directive
