import Mathlib.Data.List.Forall2
import Directive.Proofs.Token.Failure
import Directive.Proofs.Token.Moved

/-!
# The lines of two texts in a row

* `Scans`: the lines of a text one after another, from a layout to the layout behind the last one;
* `Scans.moved`: a text in front of another;
* `Scans.alike`, `scanLines_behind`: a text that is read with the layout that another one left;
* `scanLines_append`, `ofText_append`: the lines and the tokens of two texts in a row.
-/

namespace Directive

/-! ### Layouts -/

/-- A layout as lines leave it: every open block is set in, and with some character. -/
structure Layout.Sane (l : Layout) : Prop where
  wide : ∀ width ∈ l.widths, 0 < width
  flat : l.char = none → l.widths = []

/-- Some token opens a block with the character. -/
def IndentsWith (ts : List Token) (c : Char) : Prop :=
  ∃ t ∈ ts, t.kind = .indent ∧ c ∈ t.text.toList

theorem IndentsWith.append_left {ts : List Token} {c : Char} (h : IndentsWith ts c)
    (front : List Token) : IndentsWith (front ++ ts) c := by
  obtain ⟨t, ht, h⟩ := h
  exact ⟨t, List.mem_append_right _ ht, h⟩

theorem IndentsWith.append_right {ts : List Token} {c : Char} (h : IndentsWith ts c)
    (more : List Token) : IndentsWith (ts ++ more) c := by
  obtain ⟨t, ht, h⟩ := h
  exact ⟨t, List.mem_append_left _ ht, h⟩

/-- The character of a layout is not at odds with any that tokens indent with. -/
def Layout.Suits (l : Layout) (ts : List Token) : Prop :=
  ∀ a, l.char = some a → ∀ c, IndentsWith ts c → c = a

theorem Layout.Suits.of_append_right {l : Layout} {front ts : List Token}
    (h : l.Suits (front ++ ts)) : l.Suits ts := fun a ha c hc => h a ha c (hc.append_left front)

variable {l l' inner : Layout} {run : List Char} {line : Int} {lead : List Token}

/-- What a layout learns from the characters of an indentation. -/
theorem indentWith_cases (h : l.indentWith run = .ok inner) : inner.widths = l.widths ∧
    (run ≠ [] → inner.char ≠ none) ∧
    (inner.char = l.char ∨ l.char = none ∧ ∃ a ∈ run, inner.char = some a) := by
  unfold Layout.indentWith at h
  split at h
  · cases h
    exact ⟨rfl, fun hRun => absurd rfl hRun, .inl rfl⟩
  · rename_i c cs
    split at h
    · cases h
    · split at h
      · rename_i hNone
        cases h
        exact ⟨rfl, fun _ => by simp, .inr ⟨hNone, c, List.mem_cons_self, rfl⟩⟩
      · rename_i hSome
        split at h
        · cases h
          exact ⟨rfl, fun _ => by simp [hSome], .inl rfl⟩
        · cases h

theorem sane_enter (sane : l.Sane) (h : l.enter run line = .ok (inner, lead)) :
    inner.Sane ∧ ∀ a, inner.char = some a → l.char = some a ∨ IndentsWith lead a := by
  unfold Layout.enter at h
  split at h
  · cases h
  rename_i used hUsed
  obtain ⟨hWidths, hSome, hChar⟩ := indentWith_cases hUsed
  dsimp only at h
  split at h
  · rename_i hWider
    cases h
    have hRun : run ≠ [] := by
      rintro rfl
      simp at hWider
    refine ⟨⟨?_, fun hNone => absurd hNone (hSome hRun)⟩, fun a ha => ?_⟩
    · rw [hWidths]
      exact List.forall_mem_cons.mpr ⟨by omega, sane.wide⟩
    · obtain hSame | ⟨-, b, hb, hNew⟩ := hChar
      · exact .inl (hSame ▸ ha)
      · rw [show used.char = some a from ha, Option.some.injEq] at hNew
        subst hNew
        exact .inr ⟨_, List.mem_singleton_self _, rfl, by simpa using hb⟩
  · rename_i hNarrow
    split at h
    · cases h
      -- A new character comes with a first block, which a line this narrow does not open.
      have hSame : used.char = l.char := by
        obtain hSame | ⟨hNone, b, hb, -⟩ := hChar
        · exact hSame
        · rw [Layout.width, hWidths, sane.flat hNone] at hNarrow
          exact absurd (List.length_pos_of_mem hb) hNarrow
      refine ⟨⟨fun width hWidth => ?_, fun hNone => ?_⟩, fun a ha => .inl (hSame ▸ ha)⟩
      · exact sane.wide width (hWidths ▸ List.mem_of_mem_drop hWidth)
      · dsimp only at hNone ⊢
        rw [hWidths, sane.flat (hSame ▸ hNone), List.drop_nil]
    · cases h

/-- The same open blocks; the first layout may have a character that the second has yet to learn. -/
def Layout.Alike (l' l : Layout) (ts : List Token) : Prop :=
  l'.widths = l.widths ∧ (l'.char = l.char ∨ l.char = none ∧ l'.Suits ts)

theorem enter_alike {ts : List Token} (sane : l.Sane) (h : l.enter run line = .ok (inner, lead))
    (alike : l'.Alike l (lead ++ ts)) :
    ∃ inner', l'.enter run line = .ok (inner', lead) ∧ inner'.Alike inner ts := by
  obtain ⟨ws, ch⟩ := l
  obtain ⟨ws', ch'⟩ := l'
  obtain ⟨hWidths, hChar⟩ := alike
  cases hWidths
  obtain hSame | ⟨rfl, hSuits⟩ := hChar
  · cases hSame
    exact ⟨inner, h, rfl, .inl rfl⟩
  cases sane.flat rfl
  cases run with
  | nil =>
    cases h
    exact ⟨⟨[], ch'⟩, rfl, rfl, .inr ⟨rfl, hSuits.of_append_right⟩⟩
  | cons c cs =>
    rcases ch' with _ | a
    · exact ⟨inner, h, rfl, .inl rfl⟩
    by_cases hMixed : ((c :: cs).contains ' ' && (c :: cs).contains '\t') = true
    · rw [Layout.enter, Layout.indentWith, if_pos hMixed] at h
      cases h
    · rw [Layout.enter, Layout.indentWith, if_neg hMixed] at h
      cases h
      have hSame : c = a := hSuits a rfl c ⟨_, List.mem_cons_self, rfl, by simp⟩
      refine ⟨⟨[(c :: cs).length], some a⟩, ?_, rfl, .inl (by rw [hSame])⟩
      rw [Layout.enter, Layout.indentWith, if_neg hMixed]
      simp [hSame, Layout.width]

/-- A line that is not set in leaves every block. -/
theorem enter_flat (wide : ∀ width ∈ l.widths, 0 < width) (line : Int) :
    l.enter [] line =
      .ok ({ l with widths := [] }, l.widths.map fun _ => ⟨.dedent, "", line, 1⟩) := by
  have hLeft : l.left 0 = l.widths := by
    rw [Layout.left, ← List.append_nil l.widths, List.takeWhile_append_of_pos (by simpa using wide)]
    rfl
  simp [Layout.enter, Layout.indentWith, Layout.width, hLeft]

/-! ### Lines, one after another -/

/-- The lines from a cursor on, to the end of the text: their tokens, and the layout and the cursor
at the end. -/
inductive Scans : Layout → Cursor → List Token → Layout → Cursor → Prop
  | done {l : Layout} {c : Cursor} (ended : c.rest = []) : Scans l c [] l c
  | last {l inner : Layout} {c last : Cursor} {ts : List Token} (code : c.rest ≠ [])
      (line : scanLine l c = .ok (ts, inner, last)) (ended : last.rest = []) :
      Scans l c ts inner last
  | line {l inner final : Layout} {c lineEnd last : Cursor} {first ts : List Token}
      (code : c.rest ≠ []) (line : scanLine l c = .ok (first, inner, lineEnd))
      (more : lineEnd.rest ≠ []) (next : Scans inner lineEnd.next ts final last) :
      Scans l c (first ++ ts) final last

theorem scanLines_of_nil {c : Cursor} (l : Layout) (ended : c.rest = []) :
    scanLines l c = .ok (finish l c) := by
  rw [scanLines.eq_def, if_pos ended]

/-- Behind the last line there is nothing but what `finish` adds. -/
theorem scanLines_next {l inner : Layout} {c last : Cursor} {first : List Token} (code : c.rest ≠ [])
    (h : scanLine l c = .ok (first, inner, last)) :
    scanLines l c = (scanLines inner last.next).map (first ++ ·) := by
  rw [scanLines.eq_def, if_neg code]
  split
  · rename_i hFails
    rw [h] at hFails
    cases hFails
  · rename_i hSame
    rw [h] at hSame
    cases hSame
    split
    · rename_i hEnded
      rw [Cursor.next_of_nil hEnded, scanLines_of_nil _ hEnded]
      rfl
    · cases scanLines inner last.next <;> rfl
  · rename_i hStays
    rw [h] at hStays
    cases hStays

theorem scanLines_of_scans {l final : Layout} {c last : Cursor} {ts : List Token}
    (h : Scans l c ts final last) : scanLines l c = .ok (ts ++ finish final last) := by
  induction h with
  | done ended => rw [scanLines_of_nil _ ended, List.nil_append]
  | last code line ended =>
    rw [scanLines_next code line, Cursor.next_of_nil ended, scanLines_of_nil _ ended]
    rfl
  | line code line _ _ ih =>
    rw [scanLines_next code line, ih, List.append_assoc]
    rfl

theorem scans_of_scanLines {l : Layout} {c : Cursor} {ts : List Token}
    (h : scanLines l c = .ok ts) :
    ∃ lines final last, ts = lines ++ finish final last ∧ Scans l c lines final last := by
  fun_induction scanLines l c generalizing ts with
  | case1 l c ended =>
    cases h
    exact ⟨[], l, c, rfl, .done ended⟩
  | case2 => cases h
  | case3 l c code first inner lineEnd hFirst ended =>
    cases h
    exact ⟨first, inner, lineEnd, rfl, .last code hFirst ended⟩
  | case4 => cases h
  | case5 l c code first inner lineEnd hFirst hMore more hRest ih =>
    cases h
    obtain ⟨lines, final, last, rfl, hScans⟩ := ih hRest
    exact ⟨first ++ lines, final, last, by simp, .line code hFirst hMore hScans⟩
  | case6 => cases h
  | case7 => cases h

/-- What the layout does with a line. -/
theorem scanLine_cases {l inner : Layout} {c last : Cursor} {ts : List Token}
    (h : scanLine l c = .ok (ts, inner, last)) :
    ts = [] ∧ inner = l ∧ (∀ l', scanLine l' c = .ok ([], l', last)) ∨
      ∃ run line lead body, l.enter run line = .ok (inner, lead) ∧ ts = lead ++ body ∧
        ∀ l' inner' lead', l'.enter run line = .ok (inner', lead') →
          scanLine l' c = .ok (lead' ++ body, inner', last) := by
  unfold scanLine at h
  dsimp only at h
  split at h
  · rename_i hUnread
    cases h
    refine .inl ⟨rfl, rfl, fun l' => ?_⟩
    rw [scanLine]
    dsimp only
    rw [if_pos hUnread]
  rename_i hCode
  split at h
  · cases h
  rename_i lead hEnter
  split at h
  · cases h
  case h_3 => cases h
  rename_i arguments lineEnd hArguments
  cases h
  refine .inr ⟨_, _, lead, _, hEnter, by rw [List.append_assoc, List.append_assoc],
    fun l' inner' lead' hEnter' => ?_⟩
  rw [scanLine]
  dsimp only
  rw [if_neg hCode, hEnter']
  dsimp only
  rw [hArguments]
  simp

theorem sane_scanLine {l inner : Layout} {c last : Cursor} {ts : List Token} (sane : l.Sane)
    (h : scanLine l c = .ok (ts, inner, last)) :
    inner.Sane ∧ ∀ a, inner.char = some a → l.char = some a ∨ IndentsWith ts a := by
  obtain ⟨-, rfl, -⟩ | ⟨run, line, lead, body, hEnter, rfl, -⟩ := scanLine_cases h
  · exact ⟨sane, fun a ha => .inl ha⟩
  · obtain ⟨hInner, hChar⟩ := sane_enter sane hEnter
    exact ⟨hInner, fun a ha => (hChar a ha).imp_right fun h => h.append_right body⟩

theorem scanLine_alike {l l' inner : Layout} {c last : Cursor} {first ts : List Token}
    (sane : l.Sane) (h : scanLine l c = .ok (first, inner, last))
    (alike : l'.Alike l (first ++ ts)) :
    ∃ inner', scanLine l' c = .ok (first, inner', last) ∧ inner'.Alike inner ts := by
  obtain ⟨rfl, rfl, hAll⟩ | ⟨run, line, lead, body, hEnter, rfl, hAll⟩ := scanLine_cases h
  · exact ⟨l', hAll l', alike⟩
  · rw [List.append_assoc] at alike
    obtain ⟨inner', hEnter', hWidths, hChar⟩ := enter_alike sane hEnter alike
    exact ⟨inner', hAll _ _ _ hEnter', hWidths,
      hChar.imp_right fun h => ⟨h.1, h.2.of_append_right⟩⟩

namespace Scans

variable {l l' final : Layout} {c last : Cursor} {ts more' : List Token} {k : Int}
  {more : List Char}

/-- A text is scanned in front of another one as it is by itself, and then the other one is. -/
theorem moved (h : Scans l c ts final last) (apart : Apart c.rest more ∨ c.rest = [])
    {ts' : List Token} {final' : Layout} {last' : Cursor}
    (next : Scans final (last.moved k more) ts' final' last') :
    Scans l (c.moved k more) (ts.map (Token.relocate (downBy k)) ++ ts') final' last' := by
  induction h with
  | done => exact next
  | @last l inner c lineEnd ts code line ended =>
    obtain ⟨hLine, hLast⟩ := scanLine_moved (k := k) (apart.resolve_right code) line
    rw [ended] at hLast
    have hMore := hLast.more_eq_nil
    subst hMore
    have hEnded : (lineEnd.moved k []).rest = [] := by rw [Cursor.rest_moved, ended]; rfl
    have hNext : ts' = [] ∧ final' = inner ∧ last' = lineEnd.moved k [] := by
      cases next with
      | done => exact ⟨rfl, rfl, rfl⟩
      | last code' => exact absurd hEnded code'
      | line code' => exact absurd hEnded code'
    obtain ⟨rfl, rfl, rfl⟩ := hNext
    rw [List.append_nil]
    exact .last (by simpa using code) hLine hEnded
  | @line l inner final c lineEnd last first ts code line hMore _ ih =>
    obtain ⟨hLine, hLast⟩ := scanLine_moved (k := k) (apart.resolve_right code) line
    have hNext : (lineEnd.moved k more).next = lineEnd.next.moved k more := Cursor.next_moved hMore
    have hApart : Apart lineEnd.next.rest more ∨ lineEnd.next.rest = [] := by
      obtain ⟨ch, rest, hRest⟩ := List.exists_cons_of_ne_nil hMore
      rw [Cursor.rest_next, hRest, List.drop_one, List.tail_cons]
      rw [hRest] at hLast
      cases rest with
      | nil => exact .inr rfl
      | cons d rest =>
        refine .inl (hLast.imp_right fun hEnd => ?_)
        rwa [List.getLast?_cons_cons] at hEnd
    have hScans := ih hApart next
    rw [← hNext] at hScans
    rw [List.map_append, List.append_assoc]
    exact .line (by simp [code]) hLine (by simp [hMore]) hScans

theorem sane (h : Scans l c ts final last) (hSane : l.Sane) :
    final.Sane ∧ ∀ a, final.char = some a → l.char = some a ∨ IndentsWith ts a := by
  induction h with
  | done => exact ⟨hSane, fun a ha => .inl ha⟩
  | last _ line _ => exact sane_scanLine hSane line
  | line _ line _ _ ih =>
    obtain ⟨hInner, hFirst⟩ := sane_scanLine hSane line
    obtain ⟨hFinal, hRest⟩ := ih hInner
    refine ⟨hFinal, fun a ha => ?_⟩
    obtain hRest | hRest := hRest a ha
    · exact (hFirst a hRest).imp_right fun h => h.append_right _
    · exact .inr (hRest.append_left _)

/-- A text is scanned in the same way with any character for its indentation that suits it. -/
theorem alike (h : Scans l c ts final last) (hSane : l.Sane) (hAlike : l'.Alike l ts) :
    ∃ final', Scans l' c ts final' last ∧ final'.widths = final.widths := by
  induction h generalizing l' with
  | done ended => exact ⟨l', .done ended, hAlike.1⟩
  | @last l inner c last ts code line ended =>
    rw [← List.append_nil ts] at hAlike
    obtain ⟨inner', hLine, hInner⟩ := scanLine_alike hSane line hAlike
    exact ⟨inner', .last code hLine ended, hInner.1⟩
  | line code line more _ ih =>
    obtain ⟨inner', hLine, hInner⟩ := scanLine_alike hSane line hAlike
    obtain ⟨final', hScans, hFinal⟩ := ih (sane_scanLine hSane line).1 hInner
    exact ⟨final', .line code hLine more hScans, hFinal⟩

end Scans

theorem sane_empty : Layout.Sane {} := ⟨by simp, fun _ => rfl⟩

/-- The first line with tokens closes the blocks that are open in front of it, unless it begins with
an indent. -/
theorem scanLine_behind {l inner : Layout} {c last : Cursor} {first ts : List Token}
    (h : scanLine {} c = .ok (first, inner, last)) (flat : ∀ t ∈ first.head?, t.kind ≠ .indent)
    (wide : ∀ width ∈ l.widths, 0 < width) (suits : l.Suits (first ++ ts)) :
    (first = [] ∧ inner = {} ∧ scanLine l c = .ok ([], l, last)) ∨ ∃ inner' line,
      scanLine l c = .ok (l.widths.map (fun _ => ⟨.dedent, "", line, 1⟩) ++ first, inner', last) ∧
        inner'.Alike inner ts := by
  obtain ⟨rfl, rfl, hAll⟩ | ⟨run, line, lead, body, hEnter, rfl, hAll⟩ := scanLine_cases h
  · exact .inl ⟨rfl, rfl, hAll l⟩
  have hFlat : run = [] ∧ lead = [] := by
    obtain ⟨hWidth, ⟨rfl, -, -⟩ | ⟨left, rfl, hLeft⟩⟩ := enter_cases hEnter
    · exact absurd rfl (flat _ rfl)
    · obtain ⟨rfl, hWidths⟩ := List.append_eq_nil_iff.mp hLeft.symm
      rw [Layout.width, hWidths] at hWidth
      exact ⟨List.length_eq_zero_iff.mp hWidth.symm, rfl⟩
  obtain ⟨rfl, rfl⟩ := hFlat
  cases hEnter
  refine .inr ⟨_, line, hAll l _ _ (enter_flat wide line), rfl, .inr ⟨rfl, ?_⟩⟩
  exact fun a ha c hc => suits a ha c (hc.append_left _)

theorem finish_eq (l : Layout) (c : Cursor) :
    finish l c = l.widths.map (fun _ => ⟨.dedent, "", c.line, c.column⟩) ++ finish {} c := rfl

/-- A text closes the blocks that are open in front of it, unless it begins with an indent. -/
theorem scanLines_behind {l final : Layout} {c last : Cursor} {ts : List Token}
    (h : Scans {} c ts final last) (flat : ∀ t ∈ ts.head?, t.kind ≠ .indent)
    (wide : ∀ width ∈ l.widths, 0 < width) (suits : l.Suits ts) :
    ∃ line column, scanLines l c = .ok (l.widths.map (fun _ => ⟨.dedent, "", line, column⟩) ++
      (ts ++ finish final last)) := by
  generalize hStart : ({} : Layout) = start at h
  induction h with
  | @done _ c ended =>
    subst hStart
    refine ⟨c.line, c.column, ?_⟩
    rw [List.nil_append, ← finish_eq, scanLines.eq_def, if_pos ended]
  | @last _ inner c last ts code line ended =>
    subst hStart
    rw [← List.append_nil ts] at suits
    obtain ⟨rfl, rfl, hLine⟩ | ⟨inner', line', hLine, hInner⟩ :=
      scanLine_behind line flat wide suits
    · refine ⟨last.line, last.column, ?_⟩
      rw [List.nil_append, ← finish_eq, scanLines_of_scans (.last code hLine ended),
        List.nil_append]
    · refine ⟨line', 1, ?_⟩
      rw [scanLines_of_scans (.last code hLine ended), List.append_assoc, finish, hInner.1]
      rfl
  | @line _ inner final c lineEnd last first ts code line more next ih =>
    subst hStart
    have hFirst : ∀ t ∈ first.head?, t.kind ≠ .indent := fun t ht =>
      flat t (by rw [List.head?_append, ht]; rfl)
    obtain ⟨rfl, rfl, hLine⟩ | ⟨inner', line', hLine, hInner⟩ :=
      scanLine_behind line hFirst wide suits
    · obtain ⟨line', column, hNext⟩ := ih flat suits rfl
      obtain ⟨lines, final', last', hTokens, hScans⟩ := scans_of_scanLines hNext
      refine ⟨line', column, ?_⟩
      rw [scanLines_of_scans (.line code hLine more hScans), List.nil_append, ← hTokens]
      rfl
    · obtain ⟨final', hScans, hFinal⟩ := next.alike (sane_scanLine sane_empty line).1 hInner
      refine ⟨line', 1, ?_⟩
      rw [scanLines_of_scans (.line code hLine more hScans), finish, hFinal]
      simp [finish]

/-! ### Two texts -/

/-- The end of a text that ends with a line end. -/
theorem into_end {source : List Char} {c : Cursor} (into : c.Into source) (ended : c.rest = [])
    (whole : source = [] ∨ source.getLast? = some '\n') :
    c = ⟨[], 1 + source.count '\n', 1⟩ := by
  obtain ⟨passed, hSource, hHere⟩ := into
  rw [ended, List.append_nil] at hSource
  subst hSource
  rw [hHere, ended, Cursor.behind]
  congr 1
  exact columnAfter_of_whole whole

theorem Scans.ended {l final : Layout} {c last : Cursor} {ts : List Token}
    (h : Scans l c ts final last) : last.rest = [] := by
  induction h with
  | done ended => exact ended
  | last _ _ ended => exact ended
  | line _ _ _ _ ih => exact ih

theorem Scans.into {l final : Layout} {c last : Cursor} {ts : List Token} {source : List Char}
    (h : Scans l c ts final last) (into : c.Into source) : last.Into source := by
  induction h with
  | done => exact into
  | last _ line _ => exact into_scanLine into line
  | line _ line _ _ ih => exact ih (into_scanLine into line).next

theorem finish_moved (l : Layout) (c : Cursor) (k : Int) (more : List Char) :
    finish l (c.moved k more) = (finish l c).map (Token.relocate (downBy k)) := by
  rw [finish, finish, List.map_append, List.map_map]
  rfl

theorem ofText_eq_ok_iff {text : String} {ts : List Token} : Token.ofText text = .ok ts ↔
    scanLines {} (.start (Text.joinLineEnds text.toList)) = .ok ts :=
  Upshot.mapError_eq_ok

theorem indentsWith_relocate {ts : List Token} {place : Int → Int → Int × Int} {c : Char}
    (h : IndentsWith (ts.map (Token.relocate place)) c) : IndentsWith ts c := by
  obtain ⟨t', ht', hKind, hChar⟩ := h
  obtain ⟨t, ht, rfl⟩ := List.mem_map.mp ht'
  exact ⟨t, ht, hKind, hChar⟩

/-- The second of two texts, behind the end of the first. -/
theorem scans_second {source : List Char} {lines : List Token} {l final : Layout} {last : Cursor}
    (h : Scans {} (.start source) lines final last) (n : Nat)
    (flat : ∀ t ∈ lines.head?, t.kind ≠ .indent) (wide : ∀ width ∈ l.widths, 0 < width)
    (alike : ∀ a, l.char = some a → ∀ c, IndentsWith lines c → c = a) :
    ∃ line column, scanLines l ⟨source, 1 + n, 1⟩ =
      .ok (l.widths.map (fun _ => ⟨.dedent, "", line, column⟩) ++
        (lines ++ finish final last).map (Token.relocate (downBy n))) := by
  have hEnded : (last.moved n []).rest = [] := by
    rw [Cursor.rest_moved, h.ended]
    rfl
  have hMoved := h.moved (k := n) (.inl (.nil _)) (.done hEnded)
  rw [List.append_nil, show (Cursor.start source).moved n [] = ⟨source, 1 + n, 1⟩ by
    simp [Cursor.moved, Cursor.start]] at hMoved
  have hFlat : ∀ t ∈ (lines.map (Token.relocate (downBy n))).head?, t.kind ≠ .indent := by
    intro t' ht'
    rw [List.head?_map] at ht'
    obtain ⟨t, ht, rfl⟩ := Option.map_eq_some_iff.mp ht'
    exact flat t ht
  obtain ⟨line, column, hScan⟩ := scanLines_behind hMoved hFlat wide fun a ha c hc =>
    alike a ha c (indentsWith_relocate hc)
  rw [finish_moved, ← List.map_append] at hScan
  exact ⟨line, column, hScan⟩

/-- A text that ends with a line end leaves the cursor at the start of the next line. -/
theorem Scans.last_moved {source : List Char} {l : Layout} {last : Cursor} {ts : List Token}
    (h : Scans {} (.start source) ts l last) (whole : source = [] ∨ source.getLast? = some '\n')
    (more : List Char) : last.moved 0 more = ⟨more, 1 + source.count '\n', 1⟩ := by
  have hInto := h.into (.start source)
  have hEnd := h.ended
  rw [into_end hInto hEnd whole]
  simp [Cursor.moved]

/-- The lines of two texts in a row: those of the first, what closes the blocks that are open behind
it, and those of the second with their new line numbers. -/
theorem scanLines_append {source more : List Char} {lines lines' : List Token} {l l' : Layout}
    {last last' : Cursor} (h : Scans {} (.start source) lines l last)
    (hMore : Scans {} (.start more) lines' l' last')
    (whole : source = [] ∨ source.getLast? = some '\n')
    (flat : ∀ t ∈ lines'.head?, t.kind ≠ .indent)
    (alike : ∀ a c, IndentsWith lines a → IndentsWith lines' c → c = a) :
    ∃ line column, scanLines {} (.start (source ++ more)) =
      .ok (lines.map (Token.relocate (downBy 0)) ++
        (l.widths.map (fun _ => ⟨.dedent, "", line, column⟩) ++
          (lines' ++ finish l' last').map (Token.relocate (downBy (source.count '\n'))))) := by
  obtain ⟨hSane, hChar⟩ := h.sane sane_empty
  obtain ⟨line, column, hRest⟩ := scans_second hMore (source.count '\n') flat hSane.wide
    fun a ha c hc => alike a c ((hChar a ha).resolve_left (by simp)) hc
  obtain ⟨rest, final, lastly, hTokens, hScans⟩ := scans_of_scanLines hRest
  have hApart : Apart (Cursor.start source).rest more ∨ (Cursor.start source).rest = [] :=
    whole.symm.imp_left .inr
  rw [← h.last_moved whole more] at hScans
  have hAll := scanLines_of_scans (h.moved hApart hScans)
  rw [List.append_assoc, ← hTokens] at hAll
  exact ⟨line, column, hAll⟩

/-- **Tokens of two texts in a row.** The second text begins where the first one ends, and closes the
blocks that the first one leaves open. -/
theorem ofText_append {first second : String} {ts ts' : List Token}
    (hFirst : Token.ofText first = .ok ts) (hSecond : Token.ofText second = .ok ts')
    (ended : first = "" ∨ first.toList.getLast? = some '\n')
    (flat : ∀ t ∈ ts'.head?, t.kind ≠ .indent)
    (alike : ∀ a c, IndentsWith ts a → IndentsWith ts' c → c = a) :
    ∃ body body' last, ts = body ++ [last] ∧ last.kind = .eof ∧
      List.Forall₂ (Token.MovesTo (downBy 0)) body body' ∧
      Token.ofText (first ++ second) =
        .ok (body' ++ ts'.map (Token.relocate (downBy (first.toList.count '\n')))) := by
  rw [ofText_eq_ok_iff] at hFirst hSecond
  obtain ⟨lines, l, last, rfl, hScans⟩ := scans_of_scanLines hFirst
  obtain ⟨lines', l', last', rfl, hScans'⟩ := scans_of_scanLines hSecond
  have hWhole : Text.joinLineEnds first.toList = [] ∨
      (Text.joinLineEnds first.toList).getLast? = some '\n' := by
    obtain rfl | hLast := ended
    · exact .inl rfl
    · exact .inr (Text.getLast?_joinLineEnds hLast)
  have hJoin : Text.joinLineEnds (first ++ second).toList =
      Text.joinLineEnds first.toList ++ Text.joinLineEnds second.toList := by
    rw [String.toList_append]
    refine Text.joinLineEnds_append (.inl ?_)
    obtain rfl | hLast := ended
    · simp
    · simp [hLast]
  have hFlat : ∀ t ∈ lines'.head?, t.kind ≠ .indent := fun t ht =>
    flat t (by rw [List.head?_append, ht]; rfl)
  obtain ⟨line, column, hAll⟩ := scanLines_append hScans hScans' hWhole hFlat fun a c ha hc =>
    alike a c (ha.append_right _) (hc.append_right _)
  rw [Text.count_joinLineEnds, ← hJoin, ← List.append_assoc] at hAll
  refine ⟨lines ++ l.widths.map (fun _ => last.token .dedent []),
    lines.map (Token.relocate (downBy 0)) ++ l.widths.map (fun _ => ⟨.dedent, "", line, column⟩),
    last.token .eof [], by rw [finish, List.append_assoc], rfl, ?_, ofText_eq_ok_iff.mpr hAll⟩
  refine List.rel_append ?_ ?_
  · rw [List.forall₂_map_right_iff, List.forall₂_same]
    exact fun t _ => .inl rfl
  · rw [List.forall₂_map_left_iff, List.forall₂_map_right_iff, List.forall₂_same]
    exact fun _ _ => .inr ⟨rfl, rfl⟩

end Directive
