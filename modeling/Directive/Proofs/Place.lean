import Directive.Diagnostic
import Directive.Proofs.Token.Cover

/-!
# Places in the lines of a text

* `Place.PointsAt`, `Place.PointsInto`: a place that quotes the line it is on;
* `Cursor.Into`, `Cursor.Into.pointsInto`: wherever a scanner can stand is such a place;
* `Underlines`, `Place.PointsAt.underlines_describe`, `Place.PointsAt.underlines_render`: what a
  reader sees of it.
-/

namespace Directive

/-- A place on line `n` of a text, with that line, and at its character `k` or directly behind the
last one. Both are counted from zero here, and from one in the place. -/
structure Place.PointsAt (p : Place) (text line : String) (n k : Nat) : Prop where
  quoted : (Text.lines text)[n]? = some line
  within : k ≤ line.length
  atLine : p.line = some (n + 1 : Int)
  atColumn : p.column = some (k + 1 : Int)
  quotes : p.sourceLine = some line

/-- A place at a character of the text, or at the end of a line. -/
def Place.PointsInto (p : Place) (text : String) : Prop := ∃ line n k, p.PointsAt text line n k

/-- The last two lines of a rendering: a line of a script, set in, and a caret under the character
of it that has `k` others in front, or under the end of the line. -/
def Underlines (rendering line : String) (k : Nat) : Prop :=
  ∃ front, rendering =
    front ++ ("\n" ++ "    " ++ line ++ "\n" ++ "    " ++
      String.ofList (List.replicate k ' ') ++ "^")

/-! ### Where a cursor can stand -/

/-- A cursor behind some part at the front of a text. -/
def Cursor.Into (c : Cursor) (source : List Char) : Prop :=
  ∃ passed, source = passed ++ c.rest ∧ c = .behind passed c.rest

namespace Cursor.Into

variable {c : Cursor} {source : List Char}

theorem start (source : List Char) : (Cursor.start source).Into source := ⟨[], rfl, rfl⟩

theorem next (h : c.Into source) : c.next.Into source := by
  obtain ⟨passed, hSource, hHere⟩ := h
  rcases hRest : c.rest with _ | ⟨ch, more⟩
  · have hNext : c.next = c := by rw [Cursor.next, hRest]
    rw [hNext]
    exact ⟨passed, hSource, hHere⟩
  · rw [hRest] at hHere hSource
    rw [hHere, Cursor.next_behind]
    exact ⟨passed ++ [ch], by simp [hSource], rfl⟩

theorem advance (h : c.Into source) (n : Nat) : (c.advance n).Into source := by
  induction n generalizing c with
  | zero => exact h
  | succ n ih => exact ih h.next

theorem skip (h : c.Into source) (p : Char → Bool) : (c.skip p).Into source := h.advance _

end Cursor.Into

theorem split_ne_nil (p : Char → Bool) (text : List Char) : Text.split p text ≠ [] := by
  unfold Text.split
  split
  · simp
  · split
    · simp
    · split <;> simp

theorem split_cons {p : Char → Bool} {c : Char} {text piece : List Char}
    {pieces : List (List Char)} (h : p c = false) (hText : Text.split p text = piece :: pieces) :
    Text.split p (c :: text) = (c :: piece) :: pieces := by
  rw [Text.split, hText, h, if_neg Bool.false_ne_true]

/-- Behind a part of a text stands the line whose number is that of the line ends in the part. -/
theorem line_of_split (passed rest : List Char) (column : Int) :
    ∃ (line : List Char) (k : Nat),
      (Text.split (· == '\n') (passed ++ rest))[passed.count '\n']? = some line ∧
        k ≤ line.length ∧
        columnAfter passed column = k + if '\n' ∈ passed then 1 else column := by
  induction passed generalizing column with
  | nil =>
    obtain ⟨line, lines, hLines⟩ :=
      List.exists_cons_of_ne_nil (split_ne_nil (· == '\n') rest)
    exact ⟨line, 0, by simp [hLines], Nat.zero_le _, by simp [columnAfter]⟩
  | cons c passed ih =>
    by_cases hEnd : c = '\n'
    · subst hEnd
      obtain ⟨line, k, hLine, hLength, hColumn⟩ := ih 1
      refine ⟨line, k, ?_, hLength, ?_⟩
      · simpa [Text.split] using hLine
      · simpa [columnAfter] using hColumn
    obtain ⟨line, k, hLine, hLength, hColumn⟩ := ih (column + 1)
    obtain ⟨piece, pieces, hPieces⟩ :=
      List.exists_cons_of_ne_nil (split_ne_nil (· == '\n') (passed ++ rest))
    have hSplit := split_cons (c := c) (by simpa using hEnd) hPieces
    rw [hPieces] at hLine
    rw [List.cons_append, hSplit, List.count_cons_of_ne hEnd, columnAfter, List.foldl_cons,
      if_neg hEnd]
    by_cases hBreak : '\n' ∈ passed
    · -- The line is one behind the first, which alone has become longer.
      obtain ⟨m, hCount⟩ :=
        Nat.exists_eq_succ_of_ne_zero (Nat.ne_of_gt (List.count_pos_iff.mpr hBreak))
      refine ⟨line, k, ?_, hLength, ?_⟩
      · rwa [hCount, List.getElem?_cons_succ] at hLine ⊢
      · rw [if_pos (List.mem_cons_of_mem _ hBreak)]
        rwa [if_pos hBreak] at hColumn
    · have hCount : passed.count '\n' = 0 := List.count_eq_zero_of_not_mem hBreak
      rw [hCount, List.getElem?_cons_zero, Option.some.injEq] at hLine
      subst hLine
      refine ⟨c :: piece, k + 1, by rw [hCount]; rfl, by simpa using hLength, ?_⟩
      rw [if_neg hBreak] at hColumn
      rw [if_neg (by simp [hBreak, Ne.symm hEnd]), ← columnAfter, hColumn]
      push_cast
      omega

/-- What a fault quotes of the line on which a cursor stands. -/
theorem Cursor.Into.pointsInto {c : Cursor} {text : String}
    (h : c.Into (Text.joinLineEnds text.toList)) (command : Option String) : Place.PointsInto
      { line := some c.line, column := some c.column,
        sourceLine := lineAt? (Text.lines text) c.line, command } text := by
  obtain ⟨passed, hSource, hHere⟩ := h
  obtain ⟨line, k, hLine, hLength, hColumn⟩ := line_of_split passed c.rest 1
  rw [ite_self] at hColumn
  have hCursorLine : c.line = passed.count '\n' + 1 := by
    rw [hHere, Cursor.behind, Int.add_comm]
  have hLines : (Text.lines text)[passed.count '\n']? = some (String.ofList line) := by
    rw [Text.lines, hSource, List.getElem?_map, hLine]
    rfl
  refine ⟨String.ofList line, passed.count '\n', k, hLines, by simpa using hLength, ?_, ?_, ?_⟩
  · rw [hCursorLine]
  · rw [hHere, Cursor.behind]
    exact congrArg some hColumn
  · dsimp only
    rw [hCursorLine, lineAt?, if_pos (by omega), Int.add_sub_cancel, Int.toNat_natCast, hLines]

/-! ### What a reader sees -/

theorem intercalate_append_pair (mark first a b : String) (others : List String) :
    mark.intercalate (first :: (others ++ [a, b])) =
      mark.intercalate (first :: others) ++ (mark ++ a ++ mark ++ b) := by
  induction others generalizing first with
  | nil => simp [String.append_assoc]
  | cons second others ih =>
    rw [List.cons_append, String.intercalate_cons_cons, ih, String.intercalate_cons_cons]
    simp [String.append_assoc]

/-- Under every other text stands the quoted line with its caret. -/
theorem underlines_intercalate (first : String) (others : List String) (line : String) (k : Nat) :
    Underlines ("\n".intercalate (first :: (others ++ quotedSource line (some (k + 1 : Int)))))
      line k := by
  refine ⟨"\n".intercalate (first :: others), ?_⟩
  have hCaret : caretLine (k + 1) = "    " ++ String.ofList (List.replicate k ' ') ++ "^" := by
    rw [caretLine]
    simp
  rw [quotedSource, Option.map_some, Option.toList_some, hCaret, intercalate_append_pair]
  simp only [String.append_assoc]

namespace Place.PointsAt

variable {f : Fault} {text line : String} {n k : Nat}

theorem underlines_describe (h : f.place.PointsAt text line n k) :
    Underlines (f.describe .developer) line k := by
  have hPlace : Underlines (f.place.describe .developer) line k := by
    simp only [describe, positionLines, sourceLines, h.atLine, h.atColumn, h.quotes]
    exact underlines_intercalate _ _ line k
  obtain ⟨front, hFront⟩ := hPlace
  have hSome : (f.place.describe .developer).isEmpty = false := by
    rw [Bool.eq_false_iff, Ne, String.isEmpty_iff, hFront]
    intro hEmpty
    simpa using congrArg String.length hEmpty
  refine ⟨f.message ++ "\n" ++ front, ?_⟩
  rw [Fault.describe, hSome, if_neg Bool.false_ne_true, hFront]
  simp only [String.append_assoc]

theorem underlines_render (h : f.place.PointsAt text line n k) (file : String) :
    Underlines ((Diagnostic.ofFault f).render .developer file) line k := by
  simp only [Diagnostic.render, Diagnostic.source, Diagnostic.ofFault, h.atColumn, h.quotes]
  exact underlines_intercalate _ [] line k

end Place.PointsAt

end Directive
