import Directive.Proofs.Token.InFront

/-!
# Lines further down, in front of another text

* `Apart`: the texts that more can be put behind;
* `Cursor.moved`: the cursor in front of the same text and of more, some lines further down;
* `scanLine_moved`: the line that is scanned there.
-/

namespace Directive

/-- A text that nothing stands behind, or that ends with a line end. -/
def Apart (rest more : List Char) : Prop := more = [] ∨ rest.getLast? = some '\n'

namespace Apart

variable {rest more : List Char}

theorem nil (rest : List Char) : Apart rest [] := .inl rfl

theorem of_append {front : List Char} (h : Apart (front ++ rest) more)
    (hFront : front.getLast? ≠ some '\n') : Apart rest more := by
  refine h.imp_right fun hLast => ?_
  rw [List.getLast?_append] at hLast
  cases hRest : rest.getLast? with
  | none =>
    rw [hRest, Option.none_or] at hLast
    exact absurd hLast hFront
  | some c => rwa [hRest] at hLast

theorem more_eq_nil (h : Apart [] more) : more = [] := h.resolve_right (by simp)

theorem endsLine (h : Apart rest more) (ends : EndsLine rest) : EndsLine (rest ++ more) := by
  cases rest with
  | nil => rw [h.more_eq_nil]; exact .nil
  | cons c rest => exact ends

end Apart

/-- A token that is written somewhere else. Where a dedent stands does not matter. -/
def Token.MovesTo (place : Int → Int → Int × Int) (t t' : Token) : Prop :=
  t' = t.relocate place ∨ t.kind = .dedent ∧ t'.kind = .dedent

/-- The cursor in front of the same text and of more, some lines further down. -/
def Cursor.moved (c : Cursor) (k : Int) (more : List Char) : Cursor :=
  ⟨c.rest ++ more, c.line + k, c.column⟩

namespace Cursor

variable {c : Cursor} {k : Int} {more : List Char}

@[simp]
theorem rest_moved (c : Cursor) (k : Int) (more : List Char) :
    (c.moved k more).rest = c.rest ++ more := rfl

theorem moved_eq (c : Cursor) (k : Int) (more : List Char) :
    c.moved k more = (c.onto more).relocate (downBy k) := rfl

theorem next_moved (h : c.rest ≠ []) : (c.moved k more).next = c.next.moved k more := by
  rw [moved_eq, moved_eq, next_relocate (steady_downBy k _), next_onto h]

end Cursor

/-! ### Lines -/

variable {c : Cursor} {k : Int}

theorem enter_relocate (l : Layout) (run : List Char) (line : Int) :
    l.enter run (line + k) =
      relocateScan (downBy k) (Prod.map id (List.map (Token.relocate (downBy k))))
        (l.enter run line) := by
  unfold Layout.enter
  rcases l.indentWith run with p | used
  · rfl
  · dsimp only
    split
    · rfl
    · split
      · simp [relocateScan, Token.relocate, downBy]
      · rfl

theorem scanLine_relocate (l : Layout) (c : Cursor) :
    scanLine l (c.relocate (downBy k)) =
      relocateScanning (downBy k) (Prod.map (List.map (Token.relocate (downBy k)))
        (Prod.map id (Cursor.relocate (downBy k)))) (scanLine l c) := by
  have steady (line : Int) : Steady (downBy k) line := steady_downBy k line
  have hSkip := Cursor.skip_relocate (steady c.line) isIndentChar
  have hIdle : (c.relocate (downBy k)).isIdle = c.isIdle := by
    rw [Cursor.isIdle, hSkip]
    rfl
  by_cases hCode : c.isIdle = true
  · rw [scanLine_of_idle l hCode, scanLine_of_idle l (hIdle.trans hCode), hSkip,
      Cursor.skip_relocate (steady _)]
    rfl
  · have hLine : ((c.skip isIndentChar).relocate (downBy k)).line = (c.skip isIndentChar).line + k :=
      rfl
    rw [scanLine_of_entered l hCode rfl, scanLine_of_entered l (by rwa [hIdle]) hSkip,
      scanCode_relocate (steady _), Cursor.rest_relocate, hLine, enter_relocate]
    rcases l.enter (c.rest.takeWhile isIndentChar) (c.skip isIndentChar).line with e | ⟨inner, lead⟩
    · rfl
    · change Upshot.map _ _ = relocateScanning _ _ (Upshot.map _ _)
      rcases scanCode (c.skip isIndentChar) with e | ⟨code, last⟩ | _
      · rfl
      · simp [relocateScanning, Upshot.mapError, Upshot.map]
      · rfl

theorem scanLine_moved {more : List Char} {l inner : Layout} {ts : List Token} {last : Cursor}
    (apart : Apart c.rest more) (h : scanLine l c = .ok (ts, inner, last)) :
    scanLine l (c.moved k more) =
        .ok (ts.map (Token.relocate (downBy k)), inner, last.moved k more) ∧
      Apart last.rest more := by
  obtain ⟨taken, hTaken⟩ := scanLine_passes h
  have hLast : Apart last.rest more := (hTaken.split ▸ apart).of_append hTaken.ends
  have hEnds := hLast.endsLine (endsLine_of_atLineEnd (end_of_scanLine h).1)
  generalize hTail : last.rest = tail at hTaken hLast hEnds ⊢
  obtain ⟨here, rfl⟩ : ∃ here : Cursor, c = here.onto tail :=
    ⟨{ c with rest := taken }, by rw [Cursor.onto, ← hTail, ← hTaken.split]⟩
  have hOnto := scanLine_onto h hTail hEnds fun hNone => by
    subst hNone
    exact hLast.more_eq_nil
  have hMore : (here.onto tail).onto more = here.onto (tail ++ more) := by
    rw [Cursor.onto, Cursor.onto, Cursor.onto, List.append_assoc]
  refine ⟨?_, hLast⟩
  rw [Cursor.moved_eq, hMore, scanLine_relocate, hOnto, Cursor.moved_eq, Cursor.onto, hTail]
  rfl

end Directive
