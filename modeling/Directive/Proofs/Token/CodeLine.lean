import Directive.Proofs.Token.Brackets
import Directive.Proofs.Token.Scan

/-!
# The code lines of a text

A text as a list of code lines, read with no regard to how deep they are set in. A block string may
carry a code line over several lines of the text; blank lines and comments are none.

* `CodeLine`: a line with its indentation and its tokens;
* `codeLines`: the code lines from a cursor on;
* `Layout.through`: what a layout makes of code lines, one after another;
* `scanLines_eq_through`, `codeLines_of_scanLines`: scanning a text is reading its code lines and
  sending a layout through them.
-/

namespace Directive

/-- A line of code: what it is set in with, the number of the line of the text on which it starts, its
tokens, and the token for its end. -/
structure CodeLine where
  indent : List Char
  blank : ∀ c ∈ indent, isIndentChar c = true
  number : Int
  code : List Token
  nonempty : code ≠ []
  written : Written code
  lineEnd : Token
  ended : lineEnd.kind = .newline

namespace CodeLine

def width (line : CodeLine) : Nat := line.indent.length

def tokens (line : CodeLine) : List Token := line.code ++ [line.lineEnd]

theorem nesting_tokens (line : CodeLine) : nesting line.tokens = 0 :=
  (Balanced.line line.written line.ended).level

theorem countP_tokens (line : CodeLine) : line.tokens.countP (·.kind = .newline) = 1 := by
  have hCode : line.code.countP (·.kind = .newline) = 0 := by
    rw [List.countP_eq_zero]
    intro t ht hNewline
    have hWritten := line.written t ht
    rw [of_decide_eq_true hNewline] at hWritten
    cases hWritten
  simp [tokens, List.countP_append, hCode, line.ended]

end CodeLine

/-- The line at the cursor, if it is one of code, and the cursor at its end. -/
def readLine (c : Cursor) : Scanning (Option CodeLine × Cursor) :=
  let here := c.skip isIndentChar
  if hIdle : c.isIdle = true then .ok (none, here.skip (· != '\n'))
  else
    match hArguments : scanArguments (here.advance (header here).2) with
    | .error e => .error e
    | .ok (arguments, last) =>
      have hCode : here.atLineEnd = false := by
        simp only [Cursor.isIdle, Bool.or_eq_true, not_or, Bool.not_eq_true] at hIdle
        exact hIdle.1
      have hWritten := written_code (Cursor.skip_skip isIndentChar c) hCode hArguments
      .ok (some {
        indent := c.rest.takeWhile isIndentChar
        blank := fun _ hc => List.all_eq_true.mp List.all_takeWhile _ hc
        number := here.line
        code := (header here).1 ++ arguments
        nonempty := hWritten.1
        written := hWritten.2
        lineEnd := last.token .newline ['\n']
        ended := rfl }, last)
    | .endless => .endless

theorem scanLine_of_arguments {c last : Cursor} {arguments : List Token} (l : Layout)
    (h : ¬ c.isIdle = true)
    (hArguments : scanArguments ((c.skip isIndentChar).advance (header (c.skip isIndentChar)).2) =
      .ok (arguments, last)) :
    scanLine l c =
      (Upshot.ofExcept (l.enter (c.rest.takeWhile isIndentChar) (c.skip isIndentChar).line)).map
        fun p => (p.2 ++ (header (c.skip isIndentChar)).1 ++ arguments ++
          [last.token .newline ['\n']], p.1, last) := by
  rw [scanLine_of_not_idle l h, hArguments]
  cases l.enter (c.rest.takeWhile isIndentChar) (c.skip isIndentChar).line <;> rfl

/-- What a layout does with the line at the cursor. -/
theorem scanLine_of_readLine {c last : Cursor} {line : Option CodeLine} (l : Layout)
    (h : readLine c = .ok (line, last)) :
    scanLine l c = match line with
      | none => .ok ([], l, last)
      | some line => (Upshot.ofExcept (l.enter line.indent line.number)).map fun p =>
        (p.2 ++ line.tokens, p.1, last) := by
  unfold readLine at h
  dsimp only at h
  split at h
  · rename_i hIdle
    cases h
    exact scanLine_of_idle l hIdle
  · rename_i hCode
    split at h
    · cases h
    · rename_i arguments lineEnd hArguments
      cases h
      rw [scanLine_of_arguments l hCode hArguments]
      dsimp only [CodeLine.tokens]
      simp only [List.append_assoc]
    · cases h

theorem readLine_of_scanLine {l inner : Layout} {c last : Cursor} {ts : List Token}
    (h : scanLine l c = .ok (ts, inner, last)) : ∃ line, readLine c = .ok (line, last) := by
  unfold readLine
  dsimp only
  split
  · rename_i hIdle
    rw [scanLine_of_idle l hIdle] at h
    cases h
    exact ⟨none, rfl⟩
  · rename_i hCode
    rw [scanLine_of_not_idle l hCode] at h
    split at h
    · cases h
    split at h
    · cases h
    · rename_i hArguments
      cases h
      split
      · rename_i hFails
        rw [hArguments] at hFails
        cases hFails
      · rename_i hSame
        rw [hArguments] at hSame
        cases hSame
        exact ⟨_, rfl⟩
      · rename_i hStays
        rw [hArguments] at hStays
        cases hStays
    · cases h

theorem readLine_le {c last : Cursor} {line : Option CodeLine}
    (h : readLine c = .ok (line, last)) : last.rest.length ≤ c.rest.length := by
  have hSkip (p : Char → Bool) (c : Cursor) : (c.skip p).rest.length ≤ c.rest.length := by
    simp [Cursor.skip]
  unfold readLine at h
  dsimp only at h
  split at h
  · cases h
    exact Nat.le_trans (hSkip _ _) (hSkip _ _)
  · split at h
    · cases h
    · rename_i hArguments
      cases h
      have hRest := scanArguments_le hArguments
      rw [Cursor.rest_advance, List.length_drop] at hRest
      have hIndent := hSkip isIndentChar c
      omega
    · cases h

/-- The code lines from a cursor on. -/
def codeLines (c : Cursor) : Scanning (List CodeLine) :=
  if c.rest = [] then .ok []
  else match _ : readLine c with
    | .error e => .error e
    | .ok (line, last) => (codeLines last.next).map (line.toList ++ ·)
    | .endless => .endless
termination_by c.rest.length
decreasing_by
  rename_i code hLine
  have hLast := readLine_le hLine
  have hCode : 0 < c.rest.length := List.length_pos_iff.2 code
  simp only [Cursor.rest_next, List.length_drop]
  omega

/-- What a layout makes of code lines, one after another. -/
def Layout.through (l : Layout) : List CodeLine → Scan (Layout × List Token)
  | [] => .ok (l, [])
  | line :: lines =>
    match l.enter line.indent line.number with
    | .error e => .error e
    | .ok (inner, lead) =>
      (inner.through lines).map fun p => (p.1, lead ++ line.tokens ++ p.2)

section Equations

variable {c last : Cursor}

theorem codeLines_of_line {line : Option CodeLine} (code : c.rest ≠ [])
    (h : readLine c = .ok (line, last)) :
    codeLines c = (codeLines last.next).map (line.toList ++ ·) := by
  rw [codeLines.eq_def, if_neg code]
  split
  · rename_i hFails
    rw [h] at hFails
    cases hFails
  · rename_i hSame
    rw [h] at hSame
    cases hSame
    rfl
  · rename_i hStays
    rw [h] at hStays
    cases hStays

theorem scanLines_of_error {l : Layout} {e : LexFailure} (code : c.rest ≠ [])
    (h : scanLine l c = .error e) : scanLines l c = .error e := by
  rw [scanLines.eq_def, if_neg code]
  split
  · rename_i hSame
    rw [h] at hSame
    cases hSame
    rfl
  · rename_i hScanned
    rw [h] at hScanned
    cases hScanned
  · rename_i hStays
    rw [h] at hStays
    cases hStays

/-- Where a line is scanned for ever, the text is. -/
theorem scanLines_of_endless {l : Layout} (code : c.rest ≠ []) (h : scanLine l c = .endless) :
    scanLines l c = .endless := by
  rw [scanLines.eq_def, if_neg code]
  split
  · rename_i hFails
    rw [h] at hFails
    cases hFails
  · rename_i hLine
    rw [h] at hLine
    cases hLine
  · rfl

end Equations

/-- Scanning a text is reading its code lines and sending a layout through them. -/
theorem scanLines_eq_through {c : Cursor} {lines : List CodeLine} (h : codeLines c = .ok lines)
    (l : Layout) :
    ∃ last, scanLines l c =
      (Upshot.ofExcept (l.through lines)).map fun p => p.2 ++ finish p.1 last := by
  fun_induction codeLines c generalizing l lines with
  | case1 c ended =>
    cases h
    exact ⟨c, scanLines_of_nil l ended⟩
  | case2 => cases h
  | case3 c code line last hLine ih =>
    rcases hMore : codeLines last.next with e | more | _
    · rw [hMore] at h
      cases h
    case endless =>
      rw [hMore] at h
      cases h
    rw [hMore] at h
    cases h
    have hScan := scanLine_of_readLine l hLine
    cases line with
    | none =>
      obtain ⟨final, hFinal⟩ := ih hMore l
      refine ⟨final, ?_⟩
      rw [scanLines_next code hScan, hFinal]
      cases hThrough : l.through more <;> simp [Upshot.map, Upshot.ofExcept, hThrough]
    | some line =>
      dsimp only at hScan
      change ∃ final, _ = (Upshot.ofExcept (l.through (line :: more))).map _
      rcases hEnter : l.enter line.indent line.number with e | ⟨inner, lead⟩
      · rw [hEnter] at hScan
        refine ⟨last, ?_⟩
        rw [scanLines_of_error code hScan, Layout.through, hEnter]
        rfl
      · rw [hEnter] at hScan
        obtain ⟨final, hFinal⟩ := ih hMore inner
        refine ⟨final, ?_⟩
        rw [scanLines_next code hScan, hFinal, Layout.through, hEnter]
        cases hThrough : inner.through more <;>
          simp [Except.map, Upshot.map, Upshot.ofExcept, hThrough]
  | case4 => cases h

/-- A text with tokens has code lines. -/
theorem codeLines_of_scanLines {l : Layout} {c : Cursor} {ts : List Token}
    (h : scanLines l c = .ok ts) : ∃ lines, codeLines c = .ok lines := by
  obtain ⟨body, final, last, -, hScans⟩ := scans_of_scanLines h
  have hEnd {c : Cursor} (ended : c.rest = []) : codeLines c = .ok [] := by
    rw [codeLines.eq_def, if_pos ended]
  clear h
  induction hScans with
  | done ended => exact ⟨[], hEnd ended⟩
  | last code line ended =>
    obtain ⟨read, hRead⟩ := readLine_of_scanLine line
    refine ⟨read.toList ++ [], ?_⟩
    rw [codeLines_of_line code hRead, Cursor.next_of_nil ended, hEnd ended]
    rfl
  | line code line _ _ ih =>
    obtain ⟨read, hRead⟩ := readLine_of_scanLine line
    obtain ⟨more, hMore⟩ := ih
    refine ⟨read.toList ++ more, ?_⟩
    rw [codeLines_of_line code hRead, hMore]
    rfl

end Directive
