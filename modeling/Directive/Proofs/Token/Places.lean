import Directive.Proofs.Token.Lines

/-!
# Where lines stand

* `Placed`: tokens in lines that come one after another, each set in as far as its block;
* `placed_of_ofText`: so are the tokens of every text;
* `laid_of_ofText`: in particular they are in lines, and every block is closed.
-/

namespace Directive

/-- The tokens from the start of a line on while blocks of the given widths are open, innermost
first. Each line stands behind line `line`, and is set in by the width of its block. -/
inductive Placed : Bool → List Nat → Int → List Token → Prop
  | eof {opens : Bool} {line : Int} {last : Token} (kind : last.kind = .eof) :
      Placed opens [] line [last]
  | dedent {opens : Bool} {width : Nat} {widths : List Nat} {line : Int} {t : Token}
      {ts : List Token} (kind : t.kind = .dedent) (rest : Placed false widths line ts) :
      Placed opens (width :: widths) line (t :: ts)
  | line {opens : Bool} {widths : List Nat} {line : Int} {first lineEnd : Token}
      {others ts : List Token} (written : Written (first :: others)) (ended : lineEnd.kind = .newline)
      (column : first.column = widths.headD 0 + 1) (behind : line < first.line)
      (rest : Placed true widths first.line ts) :
      Placed opens widths line (first :: others ++ lineEnd :: ts)
  | indented {width : Nat} {widths : List Nat} {line : Int} {indent first lineEnd : Token}
      {others ts : List Token} (kind : indent.kind = .indent) (wider : widths.headD 0 < width)
      (written : Written (first :: others)) (ended : lineEnd.kind = .newline)
      (column : first.column = width + 1) (behind : line < first.line)
      (rest : Placed true (width :: widths) first.line ts) :
      Placed true widths line (indent :: (first :: others ++ lineEnd :: ts))

theorem Placed.laid {opens : Bool} {widths : List Nat} {line : Int} {ts : List Token}
    (h : Placed opens widths line ts) : Laid opens widths.length ts := by
  induction h with
  | eof kind => exact .eof kind
  | dedent kind _ ih => exact .dedent kind ih
  | line written ended _ _ _ ih => exact .line (List.cons_ne_nil _ _) written ended ih
  | indented kind _ written ended _ _ _ ih =>
    exact .indented kind (List.cons_ne_nil _ _) written ended ih

theorem placed_dedents {opens : Bool} {left widths : List Nat} {line : Int} {ts : List Token}
    (dedent : Nat → Token) (kind : ∀ width, (dedent width).kind = .dedent)
    (rest : ∀ b, Placed b widths line ts) :
    Placed opens (left ++ widths) line (left.map dedent ++ ts) := by
  induction left generalizing opens with
  | nil => exact rest opens
  | cons width left ih => exact .dedent (kind width) ih

theorem place_of_modifier {c : Cursor} {t : Token} {ts : List Token} {n : Nat}
    (h : modifier c = .ok (t :: ts, n)) : t.line = c.line ∧ t.column = c.column := by
  unfold modifier Cursor.fail at h
  dsimp only at h
  split at h
  · cases h
  · split at h
    · rcases hValue : modifierValue _ with e | ⟨value, m⟩
      · rw [hValue] at h
        cases h
      · rw [hValue] at h
        cases h
        exact ⟨rfl, rfl⟩
    · cases h
      exact ⟨rfl, rfl⟩
    · split at h <;> cases h
      exact ⟨rfl, rfl⟩

theorem place_of_argument {c : Cursor} {t : Token} {ts : List Token} {n : Nat}
    (h : argument c = .ok (t :: ts, n)) : t.line = c.line ∧ t.column = c.column := by
  unfold argument Cursor.fail at h
  split at h
  · split at h <;> cases h
    exact ⟨rfl, rfl⟩
  · split at h <;> cases h
    exact ⟨rfl, rfl⟩
  · exact place_of_modifier h
  · cases h
    exact ⟨rfl, rfl⟩

theorem place_of_header {c : Cursor} {t : Token} {ts : List Token} (h : (header c).1 = t :: ts) :
    t.line = c.line ∧ t.column = c.column := by
  unfold header at h
  split at h
  · cases h
  · dsimp only at h
    split at h
    · cases h
      exact ⟨rfl, rfl⟩
    · cases h
      exact ⟨rfl, rfl⟩
    · split at h <;> cases h
      exact ⟨rfl, rfl⟩

theorem place_of_scanArguments {c last : Cursor} {t : Token} {ts : List Token}
    (h : scanArguments c = .ok (t :: ts, last)) :
    t.line = (c.skip isIndentChar).line ∧ t.column = (c.skip isIndentChar).column := by
  rw [scanArguments] at h
  split at h
  · cases h
  · split at h
    · cases h
    · rename_i tokens n hFirst
      obtain ⟨first, others, rfl⟩ := List.exists_cons_of_ne_nil (written_argument hFirst).1
      split at h
      · split at h
        · cases h
        · cases h
          exact place_of_argument hFirst
        · cases h
      · cases h

/-- The arguments of a line end where it does, and not on an earlier one. -/
theorem end_of_scanArguments {c last : Cursor} {ts : List Token}
    (h : scanArguments c = .ok (ts, last)) : last.atLineEnd = true ∧ c.line ≤ last.line := by
  fun_induction scanArguments c generalizing ts last with
  | case1 c here =>
    rename_i hEnd
    cases h
    exact ⟨hEnd, c.line_le_advance _⟩
  | case2 => cases h
  | case3 => cases h
  | case4 c here _ first n _ _ more _ hMore =>
    rename_i ih
    cases h
    obtain ⟨hEnd, hLine⟩ := ih hMore
    have hSkip : c.line ≤ here.line := c.line_le_advance _
    exact ⟨hEnd, Int.le_trans hSkip (Int.le_trans (here.line_le_advance n) hLine)⟩
  | case5 => cases h
  | case6 => cases h

/-- The first token of a line stands where its code begins. -/
theorem place_of_code {here last : Cursor} {arguments others : List Token} {first : Token}
    (hSkip : here.skip isIndentChar = here)
    (h : scanArguments (here.advance (header here).2) = .ok (arguments, last))
    (hCode : (header here).1 ++ arguments = first :: others) :
    first.line = here.line ∧ first.column = here.column := by
  rcases hHeader : (header here).1 with _ | ⟨t, ts⟩
  · rw [hHeader, List.nil_append] at hCode
    subst hCode
    rw [header_of_nil hHeader, Cursor.advance] at h
    have hPlace := place_of_scanArguments h
    rwa [hSkip] at hPlace
  · rw [hHeader] at hCode
    cases hCode
    exact place_of_header hHeader

theorem atLineEnd_skip (c : Cursor) : (c.skip (· != '\n')).atLineEnd = true := by
  have hRest := takeWhile_drop_takeWhile (· != '\n') c.rest
  rw [Cursor.atLineEnd, Cursor.skip, Cursor.rest_advance]
  split
  · rfl
  · rename_i ch cs hCode
    rw [hCode] at hRest
    cases hSame : ch == '\n' with
    | true => rfl
    | false => simp [bne, hSame] at hRest

theorem end_of_scanLine {l inner : Layout} {c last : Cursor} {ts : List Token}
    (h : scanLine l c = .ok (ts, inner, last)) : last.atLineEnd = true ∧ c.line ≤ last.line := by
  unfold scanLine at h
  dsimp only at h
  have hHere := c.line_le_advance (c.rest.takeWhile isIndentChar).length
  split at h
  · cases h
    exact ⟨atLineEnd_skip _, Int.le_trans hHere (Cursor.line_le_advance _ _)⟩
  · split at h
    · cases h
    · split at h
      · cases h
      · rename_i hArguments
        cases h
        obtain ⟨hEnd, hLine⟩ := end_of_scanArguments hArguments
        exact ⟨hEnd, Int.le_trans hHere (Int.le_trans (Cursor.line_le_advance _ _) hLine)⟩
      · cases h

/-- The tokens of a line in front of those of the lines after it. -/
theorem placed_scanLine {l inner : Layout} {c last : Cursor} {ts rest : List Token} {line : Int}
    (h : scanLine l c = .ok (ts, inner, last)) (start : c.column = 1) (behind : line < c.line)
    (hRest : ∀ line' ≤ last.line, Placed true inner.widths line' rest) :
    Placed true l.widths line (ts ++ rest) := by
  have hLast := (end_of_scanLine h).2
  unfold scanLine at h
  dsimp only at h
  split at h
  · cases h
    exact hRest line (by omega)
  rename_i hCode
  split at h
  · cases h
  rename_i layoutTokens hEnter
  split at h
  · cases h
  case h_3 => cases h
  rename_i arguments last' hArguments
  cases h
  obtain ⟨hLine, hColumn⟩ := c.at_skip (show isIndentChar '\n' = false by decide)
  have hStart : (c.skip isIndentChar).atLineEnd = false :=
    (Bool.or_eq_false_iff.mp (Bool.eq_false_iff.mpr hCode)).1
  obtain ⟨hNonempty, hWritten⟩ := written_code (c.skip_skip isIndentChar) hStart hArguments
  obtain ⟨first, others, hTokens⟩ := List.exists_cons_of_ne_nil hNonempty
  obtain ⟨hFirstLine, hFirstColumn⟩ := place_of_code (c.skip_skip isIndentChar) hArguments hTokens
  rw [hTokens] at hWritten
  have hLater : first.line ≤ last.line := by
    rw [hFirstLine]
    exact Int.le_trans (Cursor.line_le_advance _ _) (end_of_scanArguments hArguments).2
  have hBehind : line < first.line := by omega
  have hEnded : (last.token .newline ['\n']).kind = .newline := rfl
  have hSplit (lead code : List Token) (hCode : code ++ arguments = first :: others) :
      lead ++ code ++ arguments ++ [last.token .newline ['\n']] ++ rest =
        lead ++ (first :: others ++ last.token .newline ['\n'] :: rest) := by
    rw [← hCode]
    simp
  refine (congrArg (Placed true l.widths line) (hSplit _ _ hTokens)).mpr ?_
  obtain ⟨hWidth, ⟨rfl, hWidths, hWider⟩ | ⟨left, rfl, hWidths⟩⟩ := enter_cases hEnter
  · have hPlaced := hRest first.line hLater
    rw [hWidths] at hPlaced
    exact .indented rfl hWider hWritten hEnded (by omega) hBehind hPlaced
  · have hPlaced : ∀ b, Placed b inner.widths line
        (first :: others ++ last.token .newline ['\n'] :: rest) := fun b => by
      have hColumn' : first.column = inner.widths.headD 0 + 1 := by
        rw [hFirstColumn, hColumn, start, show inner.widths.headD 0 = _ from hWidth]
        omega
      exact .line hWritten hEnded hColumn' hBehind (hRest first.line hLater)
    rw [hWidths]
    exact placed_dedents _ (fun _ => rfl) hPlaced

theorem placed_finish (opens : Bool) (l : Layout) (c : Cursor) (line : Int) :
    Placed opens l.widths line (finish l c) := by
  have hEof : ∀ b, Placed b [] line [c.token .eof []] := fun b => .eof rfl
  have hPlaced : Placed opens (l.widths ++ []) line _ :=
    placed_dedents (fun _ => c.token .dedent []) (fun _ => rfl) hEof
  rwa [List.append_nil] at hPlaced

theorem next_of_atLineEnd {c : Cursor} (h : c.atLineEnd = true) (more : c.rest ≠ []) :
    c.next.line = c.line + 1 ∧ c.next.column = 1 := by
  rw [Cursor.atLineEnd] at h
  rw [Cursor.next]
  split
  · contradiction
  · exact ⟨rfl, rfl⟩
  · simp_all

theorem rest_of_atLineEnd {c : Cursor} (h : c.atLineEnd = true) (more : c.rest ≠ []) :
    c.rest = '\n' :: c.next.rest := by
  obtain ⟨ch, rest, hRest⟩ := List.exists_cons_of_ne_nil more
  rw [Cursor.atLineEnd, hRest, beq_iff_eq] at h
  rw [Cursor.rest_next, hRest, h]
  rfl

theorem placed_scanLines {l : Layout} {c : Cursor} {ts : List Token} {line : Int}
    (h : scanLines l c = .ok ts) (start : c.column = 1) (behind : line < c.line) :
    Placed true l.widths line ts := by
  fun_induction scanLines l c generalizing ts line with
  | case1 l c =>
    cases h
    exact placed_finish true l c line
  | case2 => cases h
  | case3 l c _ first inner last hFirst _ =>
    cases h
    exact placed_scanLine hFirst start behind fun _ _ => placed_finish true inner last _
  | case4 => cases h
  | case5 l c _ first inner last hFirst hMore more hRest ih =>
    cases h
    obtain ⟨hLine, hColumn⟩ := next_of_atLineEnd (end_of_scanLine hFirst).1 hMore
    exact placed_scanLine hFirst start behind fun line' hLater =>
      ih hRest hColumn (by omega)
  | case6 => cases h
  | case7 => cases h

theorem placed_of_ofText {text : String} {ts : List Token} (h : Token.ofText text = .ok ts) :
    Placed true [] 0 ts := by
  exact placed_scanLines (Upshot.mapError_eq_ok.mp h) rfl (by simp [Cursor.start])

theorem laid_of_ofText {text : String} {ts : List Token} (h : Token.ofText text = .ok ts) :
    Laid true 0 ts :=
  (placed_of_ofText h).laid

namespace Placed

variable {opens : Bool} {widths : List Nat} {line : Int} {t : Token} {ts : List Token}

theorem of_eof (h : Placed opens widths line (t :: ts)) (kind : t.kind = .eof) : widths = [] :=
  List.length_eq_zero_iff.mp (h.laid.of_eof kind).1

theorem of_dedent (h : Placed opens widths line (t :: ts)) (kind : t.kind = .dedent) :
    ∃ width outer, widths = width :: outer ∧ Placed false outer line ts := by
  cases h with
  | eof kind' => simp [kind] at kind'
  | dedent _ rest => exact ⟨_, _, rfl, rest⟩
  | line written => simpa [kind, TokenKind.isLayout] using written t List.mem_cons_self
  | indented kind' => simp [kind] at kind'

/-- Behind an indent a line stands as lines stand in the block that opens there. -/
theorem of_indent (h : Placed opens widths line (t :: ts)) (kind : t.kind = .indent) :
    ∃ width, widths.headD 0 < width ∧ Placed true (width :: widths) line ts := by
  cases h with
  | eof kind' => simp [kind] at kind'
  | dedent kind' => simp [kind] at kind'
  | line written => simpa [kind, TokenKind.isLayout] using written t List.mem_cons_self
  | indented _ wider written ended column behind rest =>
    exact ⟨_, wider, .line written ended column behind rest⟩

/-- What stands on a line reaches up to its end, and begins where its block says. -/
theorem of_written {first : Token} {others more : List Token}
    (h : Placed opens widths line (first :: others ++ more)) (written : Written (first :: others))
    (stops : ∀ t ∈ more.head?, t.kind.isLayout = true) :
    first.column = widths.headD 0 + 1 ∧ line < first.line ∧ ∃ lineEnd rest,
      more = lineEnd :: rest ∧ lineEnd.kind = .newline ∧ Placed true widths first.line rest := by
  have hFirst : first.kind.isLayout = false := written first List.mem_cons_self
  generalize hAll : first :: others ++ more = all at h
  cases h with
  | eof kind =>
    obtain ⟨rfl, -⟩ := List.cons.inj hAll
    simp [kind, TokenKind.isLayout] at hFirst
  | dedent kind _ =>
    obtain ⟨rfl, -⟩ := List.cons.inj hAll
    simp [kind, TokenKind.isLayout] at hFirst
  | line written' ended column behind rest =>
    have hMore := written_unique hAll written written' (by rw [ended]; rfl) stops
    obtain ⟨rfl, -⟩ := List.cons.inj hAll
    exact ⟨column, behind, _, _, hMore, ended, rest⟩
  | indented kind =>
    obtain ⟨rfl, -⟩ := List.cons.inj hAll
    simp [kind, TokenKind.isLayout] at hFirst

end Placed

end Directive
