import Directive.Proofs.Token.Places

/-!
# The same text somewhere else

The lexer looks at positions only to write them into its tokens and its faults.

* `Steady`: places that go on along each line and begin anew with the next one;
* `Token.relocate`, `Cursor.relocate`: a token and a cursor at other places;
* `Token.bare`: a token without its column;
* `argument_relocate`, `scanArguments_relocate`, `scanCode_relocate`: what is read there.
-/

namespace Directive

variable {place : Int → Int → Int × Int}

/-- From a line on, places go on by one column with each character, and begin the next line behind a
line end. -/
structure Steady (place : Int → Int → Int × Int) (first : Int) : Prop where
  across : ∀ line column, first ≤ line →
    place line (column + 1) = ((place line column).1, (place line column).2 + 1)
  down : ∀ line column, first ≤ line → place (line + 1) 1 = ((place line column).1 + 1, 1)

theorem Steady.later {first line : Int} (h : Steady place first) (le : first ≤ line) :
    Steady place line :=
  ⟨fun l k hl => h.across l k (Int.le_trans le hl), fun l k hl => h.down l k (Int.le_trans le hl)⟩

/-- The place some lines further down. -/
def downBy (k line column : Int) : Int × Int := (line + k, column)

theorem steady_downBy (k line : Int) : Steady (downBy k) line := by
  refine ⟨fun l column _ => rfl, fun l column _ => ?_⟩
  rw [downBy, downBy, Prod.mk.injEq]
  exact ⟨by omega, rfl⟩

/-- The place some columns further along, on one line only. -/
def alongBy (first k line column : Int) : Int × Int :=
  (line, if line = first then column + k else column)

theorem steady_alongBy (first k : Int) : Steady (alongBy first k) first := by
  refine ⟨fun l column hl => ?_, fun l column hl => ?_⟩
  · unfold alongBy
    split
    · rw [Int.add_right_comm]
    · rfl
  · rw [alongBy, alongBy, if_neg (by omega)]

/-- A token that is written somewhere else. -/
def Token.relocate (place : Int → Int → Int × Int) (t : Token) : Token :=
  { t with line := (place t.line t.column).1, column := (place t.line t.column).2 }

def LexFailure.relocate (place : Int → Int → Int × Int) (e : LexFailure) : LexFailure :=
  { e with line := (place e.line e.column).1, column := (place e.line e.column).2 }

/-- The place without its column. -/
def columnless (line _column : Int) : Int × Int := (line, 0)

/-- What of a token does not depend on how far the lines of its text are set in: not its column, and
not the text of an indent. -/
def Token.bare (t : Token) : Token :=
  { t.relocate columnless with text := if t.kind = .indent then "" else t.text }

def LexFailure.bare (e : LexFailure) : LexFailure := e.relocate columnless

/-- What is scanned, or the fault, somewhere else. -/
def relocateScan {α : Type} (place : Int → Int → Int × Int) (f : α → α) : Scan α → Scan α
  | .ok a => .ok (f a)
  | .error e => .error (e.relocate place)

/-- What a scan in rounds comes to, somewhere else. -/
def relocateScanning {α : Type} (place : Int → Int → Int × Int) (f : α → α) (u : Scanning α) :
    Scanning α :=
  (u.mapError (LexFailure.relocate place)).map f

/-- The cursor in front of the same text somewhere else. -/
def Cursor.relocate (place : Int → Int → Int × Int) (c : Cursor) : Cursor :=
  { c with line := (place c.line c.column).1, column := (place c.line c.column).2 }

namespace Cursor

variable {c : Cursor}

@[simp]
theorem rest_relocate (c : Cursor) : (c.relocate place).rest = c.rest := rfl

theorem next_relocate (steady : Steady place c.line) :
    (c.relocate place).next = c.next.relocate place := by
  obtain ⟨rest, line, column⟩ := c
  cases rest with
  | nil => rfl
  | cons ch rest =>
    by_cases hEnd : ch = '\n'
    · subst hEnd
      simp only [relocate, next, steady.down line column (Int.le_refl _)]
    · rw [relocate, next_cons hEnd, next_cons hEnd, relocate]
      simp only [steady.across line column (Int.le_refl _)]

theorem advance_relocate (steady : Steady place c.line) (n : Nat) :
    (c.relocate place).advance n = (c.advance n).relocate place := by
  induction n generalizing c with
  | zero => rfl
  | succ n ih =>
    rw [advance, advance, next_relocate steady]
    exact ih (steady.later c.line_le_next)

theorem skip_relocate (steady : Steady place c.line) (p : Char → Bool) :
    (c.relocate place).skip p = (c.skip p).relocate place := advance_relocate steady _

end Cursor

/-! ### The scanners -/

variable {c : Cursor}

theorem header_relocate (steady : Steady place c.line) :
    header (c.relocate place) = ((header c).1.map (Token.relocate place), (header c).2) := by
  unfold header
  rw [Cursor.rest_relocate]
  split
  · rfl
  · rename_i name _
    dsimp only
    rw [Cursor.advance_relocate steady, Cursor.rest_relocate]
    split
    · rfl
    · rfl
    · split <;> rfl

theorem modifierValue_relocate (c : Cursor) :
    modifierValue (c.relocate place) =
      relocateScan place (Prod.map (Token.relocate place) id) (modifierValue c) := by
  unfold modifierValue
  rw [Cursor.rest_relocate]
  split
  · split <;> rfl
  · rfl

theorem modifier_relocate (steady : Steady place c.line) :
    modifier (c.relocate place) =
      relocateScan place (Prod.map (List.map (Token.relocate place)) id) (modifier c) := by
  have hAtKey := Cursor.advance_relocate steady 2
  have hSteady := steady.later (c.line_le_advance 2)
  unfold modifier
  dsimp only
  rw [hAtKey, Cursor.rest_relocate]
  split
  · rfl
  rename_i key _
  have hSteady' := hSteady.later ((c.advance 2).line_le_advance key.length)
  rw [Cursor.advance_relocate hSteady, Cursor.rest_relocate]
  split
  · rw [Cursor.next_relocate hSteady', modifierValue_relocate]
    rcases modifierValue ((c.advance 2).advance key.length).next with e | ⟨value, n⟩ <;> rfl
  · rfl
  · split <;> rfl

theorem argument_relocate (steady : Steady place c.line) :
    argument (c.relocate place) =
      relocateScan place (Prod.map (List.map (Token.relocate place)) id) (argument c) := by
  have hModifier := modifier_relocate steady
  unfold argument
  rw [Cursor.rest_relocate]
  split
  · split <;> rfl
  · split <;> rfl
  · exact hModifier
  · rfl

/-- The arguments of a line are read one after another. -/
theorem scanArguments_of_code {here : Cursor} (hHere : c.skip isIndentChar = here)
    (hCode : here.atLineEnd = false) :
    scanArguments c = (Upshot.ofExcept (argument here)).bind fun first =>
      if 0 < first.2 then
        (scanArguments (here.advance first.2)).map fun more => (first.1 ++ more.1, more.2)
      else .endless := by
  subst hHere
  rw [scanArguments, if_neg (by simp [hCode])]
  rcases argument (c.skip isIndentChar) with e | ⟨first, n⟩
  · rfl
  · change (if 0 < n then _ else _) = if 0 < n then _ else _
    rcases scanArguments ((c.skip isIndentChar).advance n) with e | ⟨more, last⟩ | _ <;> rfl

theorem scanArguments_of_end {here : Cursor} (hHere : c.skip isIndentChar = here)
    (hEnd : here.atLineEnd = true) : scanArguments c = .ok ([], here) := by
  subst hHere
  rw [scanArguments]
  exact if_pos hEnd

/-- What holds of a cursor if it holds behind the first argument there holds of every cursor. -/
theorem Cursor.arguments_induction {motive : Cursor → Prop}
    (step : ∀ c, (∀ ts n, (c.skip isIndentChar).atLineEnd = false →
      argument (c.skip isIndentChar) = .ok (ts, n) → 0 < n →
        motive ((c.skip isIndentChar).advance n)) → motive c) (c : Cursor) : motive c := by
  induction hLength : c.rest.length using Nat.strongRecOn generalizing c with
  | ind m ih =>
    refine step c fun ts n hCode _ hTaken => ih _ ?_ _ rfl
    have hSome : 0 < (c.skip isIndentChar).rest.length := by
      refine List.length_pos_iff.mpr fun hNone => ?_
      simp [atLineEnd, hNone] at hCode
    have hSkip : (c.skip isIndentChar).rest.length ≤ c.rest.length := by simp [skip]
    rw [rest_advance, List.length_drop]
    omega

theorem scanArguments_relocate (steady : Steady place c.line) :
    scanArguments (c.relocate place) =
      relocateScanning place (Prod.map (List.map (Token.relocate place)) (Cursor.relocate place))
        (scanArguments c) := by
  induction c using Cursor.arguments_induction with
  | step c ih =>
    have hHere : Steady place (c.skip isIndentChar).line := steady.later (c.line_le_advance _)
    have hSkip := Cursor.skip_relocate steady isIndentChar
    cases hEnd : (c.skip isIndentChar).atLineEnd with
    | true => rw [scanArguments_of_end rfl hEnd, scanArguments_of_end hSkip hEnd]; rfl
    | false =>
      rw [scanArguments_of_code rfl hEnd, scanArguments_of_code hSkip hEnd, argument_relocate hHere]
      rcases hFirst : argument (c.skip isIndentChar) with e | ⟨first, n⟩
      · rfl
      change (if 0 < n then _ else _) = relocateScanning _ _ (if 0 < n then _ else _)
      by_cases hTaken : 0 < n
      · have hMore := ih first n hEnd hFirst hTaken (hHere.later (Cursor.line_le_advance _ _))
        rw [← Cursor.advance_relocate hHere] at hMore
        rw [if_pos hTaken, if_pos hTaken]
        change (scanArguments (((c.skip isIndentChar).relocate place).advance n)).map _ = _
        rw [hMore]
        rcases scanArguments ((c.skip isIndentChar).advance n) with e | ⟨more, last⟩ | _
        · rfl
        · simp [relocateScanning, Upshot.mapError, Upshot.map]
        · rfl
      · rw [if_neg hTaken, if_neg hTaken]
        rfl

theorem scanCode_relocate (steady : Steady place c.line) :
    scanCode (c.relocate place) =
      relocateScanning place (Prod.map (List.map (Token.relocate place)) (Cursor.relocate place))
        (scanCode c) := by
  have hArguments := steady.later (c.line_le_advance (header c).2)
  rw [scanCode, scanCode, header_relocate steady, Cursor.advance_relocate steady,
    scanArguments_relocate hArguments]
  rcases scanArguments (c.advance (header c).2) with e | ⟨arguments, last⟩ | _
  · rfl
  · simp only [relocateScanning, Upshot.mapError, Upshot.map, Prod.map, List.map_append]
    rfl
  · rfl

end Directive
