import Directive.Token.Lexer

/-!
# Where a cursor stands

* `Cursor.advance_append`: the position behind a text;
* `Cursor.line_le_advance`, `Cursor.line_advance`: a cursor never goes back to an earlier line, and
  goes on by one line with each line end;
* `Cursor.at_skip`: within a line it counts columns.
-/

namespace Directive

/-- The column after a text that starts in a given one. -/
def columnAfter (text : List Char) (column : Int) : Int :=
  text.foldl (fun k c => if c = '\n' then 1 else k + 1) column

theorem Cursor.next_cons {c : Char} {cs : List Char} {line column : Int} (h : c ≠ '\n') :
    Cursor.next ⟨c :: cs, line, column⟩ = ⟨cs, line, column + 1⟩ := by
  unfold next
  split <;> simp_all

theorem Cursor.next_of_nil {c : Cursor} (h : c.rest = []) : c.next = c := by
  unfold next
  rw [h]

theorem Cursor.advance_append (text more : List Char) (line column : Int) :
    Cursor.advance ⟨text ++ more, line, column⟩ text.length =
      ⟨more, line + text.count '\n', columnAfter text column⟩ := by
  induction text generalizing line column with
  | nil => simp [advance, columnAfter]
  | cons c text ih =>
    rw [List.length_cons, advance, List.cons_append, next]
    by_cases h : c = '\n'
    · subst h
      simp only [ih, columnAfter, List.foldl_cons, List.count_cons_self, if_pos]
      congr 1
      push_cast
      omega
    · simp only [ih, columnAfter, List.foldl_cons, if_neg h, List.count_cons_of_ne h]

theorem columnAfter_of_line {text : List Char} (h : '\n' ∉ text) (column : Int) :
    columnAfter text column = column + text.length := by
  induction text generalizing column with
  | nil => simp [columnAfter]
  | cons c text ih =>
    rw [List.mem_cons, not_or] at h
    have hText := ih h.2 (column + 1)
    rw [columnAfter] at hText ⊢
    rw [List.foldl_cons, if_neg (Ne.symm h.1), hText, List.length_cons]
    push_cast
    omega

theorem columnAfter_of_whole {text : List Char} (whole : text = [] ∨ text.getLast? = some '\n') :
    columnAfter text 1 = 1 := by
  obtain rfl | hLast := whole
  · rfl
  · obtain ⟨front, rfl⟩ := List.getLast?_eq_some_iff.mp hLast
    rw [columnAfter, List.foldl_append]
    rfl

theorem Cursor.skip_append {p : Char → Bool} {run more : List Char} (hRun : ∀ c ∈ run, p c = true)
    (hMore : ∀ c ∈ more.head?, p c = false) (hLine : '\n' ∉ run) (line column : Int) :
    Cursor.skip p ⟨run ++ more, line, column⟩ = ⟨more, line, column + run.length⟩ := by
  have hTaken : (run ++ more).takeWhile p = run := by
    rw [List.takeWhile_append_of_pos hRun]
    cases more with
    | nil => simp
    | cons c more => simp [hMore c rfl]
  rw [skip, hTaken, advance_append, List.count_eq_zero_of_not_mem hLine, columnAfter_of_line hLine]
  simp

theorem takeWhile_drop_takeWhile {α : Type} (p : α → Bool) (l : List α) :
    (l.drop (l.takeWhile p).length).takeWhile p = [] := by
  induction l with
  | nil => rfl
  | cons a l ih =>
    by_cases h : p a = true
    · simpa [h] using ih
    · simp [h]

theorem Cursor.rest_skip (p : Char → Bool) (c : Cursor) : (c.skip p).rest = c.rest.dropWhile p := by
  rw [skip, rest_advance]
  calc c.rest.drop (c.rest.takeWhile p).length
      = (c.rest.takeWhile p ++ c.rest.dropWhile p).drop (c.rest.takeWhile p).length := by
        rw [List.takeWhile_append_dropWhile]
    _ = c.rest.dropWhile p := List.drop_left

theorem Cursor.skip_skip (p : Char → Bool) (c : Cursor) : (c.skip p).skip p = c.skip p := by
  rw [skip, show (c.skip p).rest.takeWhile p = [] by
    rw [skip, rest_advance]
    exact takeWhile_drop_takeWhile p c.rest]
  rfl

theorem Cursor.line_le_next (c : Cursor) : c.line ≤ c.next.line := by
  unfold next
  split
  · exact Int.le_refl _
  · dsimp only
    omega
  · exact Int.le_refl _

theorem Cursor.line_le_advance (c : Cursor) (n : Nat) : c.line ≤ (c.advance n).line := by
  induction n generalizing c with
  | zero => exact Int.le_refl _
  | succ n ih => exact Int.le_trans c.line_le_next (ih c.next)

theorem Cursor.advance_advance (c : Cursor) (m n : Nat) :
    (c.advance m).advance n = c.advance (m + n) := by
  induction m generalizing c with
  | zero => rw [Nat.zero_add, advance]
  | succ m ih => rw [Nat.succ_add, advance, advance, ih]

theorem Cursor.line_next (c : Cursor) : c.next.line = c.line + (c.rest.take 1).count '\n' := by
  obtain ⟨rest, line, column⟩ := c
  cases rest with
  | nil => simp [next]
  | cons ch rest =>
    by_cases hEnd : ch = '\n'
    · subst hEnd
      simp [next]
    · simp [next_cons hEnd, hEnd]

/-- A cursor moves on by the lines that end in what it passes. -/
theorem Cursor.line_advance (c : Cursor) (n : Nat) :
    (c.advance n).line = c.line + (c.rest.take n).count '\n' := by
  induction n generalizing c with
  | zero => simp [advance]
  | succ n ih =>
    have hTake : c.rest.take (n + 1) = c.rest.take 1 ++ (c.rest.drop 1).take n := by
      rw [Nat.add_comm, List.take_add]
    rw [advance, ih, line_next, rest_next, hTake, List.count_append]
    omega

/-- A cursor that skips characters of a line stays on it. -/
theorem Cursor.at_skip {p : Char → Bool} (hLine : p '\n' = false) (c : Cursor) :
    (c.skip p).line = c.line ∧ (c.skip p).column = c.column + (c.rest.takeWhile p).length := by
  have hRun : '\n' ∉ c.rest.takeWhile p := fun h => by
    have hTaken := List.all_eq_true.mp List.all_takeWhile _ h
    rw [hLine] at hTaken
    cases hTaken
  have hRest : c = ⟨c.rest.takeWhile p ++ c.rest.dropWhile p, c.line, c.column⟩ := by
    rw [List.takeWhile_append_dropWhile]
  have hSkip : c.skip p = (⟨c.rest.takeWhile p ++ c.rest.dropWhile p, c.line, c.column⟩ :
      Cursor).advance (c.rest.takeWhile p).length := by
    rw [← hRest]
    rfl
  rw [hSkip, advance_append, List.count_eq_zero_of_not_mem hRun, columnAfter_of_line hRun]
  exact ⟨by simp, rfl⟩

end Directive
