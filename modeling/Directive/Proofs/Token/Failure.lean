import Directive.Proofs.Place

/-!
# Where the lexer fails

* `LexFailure.Points`: a failure at a position of the text;
* `points_scanLines`: every failure of the lexer is like that;
* `HasStrayBlank`, `hasStrayBlank_of_argument`: the one thing in a text at which an argument takes no
  character.
-/

namespace Directive

/-- A blank, but no space and no tab, that stands directly before two hyphens. -/
def HasStrayBlank (source : List Char) : Prop :=
  ∃ front c rest, source = front ++ c :: '-' :: '-' :: rest ∧ Text.isBlank c = true ∧
    isIndentChar c = false ∧ c ≠ '\n'

theorem hasStrayBlank_cons {c : Char} {cs : List Char} : HasStrayBlank (c :: cs) ↔
    (Text.isBlank c = true ∧ isIndentChar c = false ∧ c ≠ '\n') ∧ ['-', '-'] <+: cs ∨
      HasStrayBlank cs := by
  constructor
  · rintro ⟨front, d, rest, hSplit, hBlank⟩
    rcases front with _ | ⟨e, front⟩
    · obtain ⟨rfl, rfl⟩ := List.cons.inj hSplit
      exact .inl ⟨hBlank, rest, rfl⟩
    · exact .inr ⟨front, d, rest, (List.cons.inj hSplit).2, hBlank⟩
  · rintro (⟨hBlank, rest, rfl⟩ | ⟨front, d, rest, rfl, hBlank⟩)
    · exact ⟨[], c, rest, rfl, hBlank⟩
    · exact ⟨c :: front, d, rest, rfl, hBlank⟩

instance HasStrayBlank.decidable : (source : List Char) → Decidable (HasStrayBlank source)
  | [] => .isFalse fun ⟨front, c, rest, hSplit, _⟩ => by simp at hSplit
  | _ :: cs =>
    have := HasStrayBlank.decidable cs
    decidable_of_iff' _ hasStrayBlank_cons

/-- A failure where a cursor can stand. -/
def LexFailure.Points (e : LexFailure) (source : List Char) : Prop :=
  ∃ c : Cursor, c.Into source ∧ e.line = c.line ∧ e.column = c.column

variable {c : Cursor} {source : List Char} {e : LexFailure}

theorem points_of_fail {α : Type} {p : LexProblem} (into : c.Into source)
    (h : (c.fail p : Scan α) = .error e) : e.Points source := by
  cases h
  exact ⟨c, into, rfl, rfl⟩

theorem points_modifierValue (into : c.Into source) (h : modifierValue c = .error e) :
    e.Points source := by
  unfold modifierValue at h
  split at h
  · split at h
    · cases h
    · exact points_of_fail into h
  · cases h

theorem points_modifier (into : c.Into source) (h : modifier c = .error e) : e.Points source := by
  unfold modifier at h
  dsimp only at h
  have hAtKey := into.advance 2
  split at h
  · exact points_of_fail hAtKey h
  rename_i key _
  have hAfterKey := hAtKey.advance key.length
  split at h
  · rcases hValue : modifierValue ((c.advance 2).advance key.length).next with e' | ⟨value, n⟩
    · rw [hValue] at h
      cases h
      exact points_modifierValue hAfterKey.next hValue
    · rw [hValue] at h
      cases h
  · cases h
  · split at h
    · exact points_of_fail hAfterKey h
    · cases h

theorem points_argument (into : c.Into source) (h : argument c = .error e) : e.Points source := by
  unfold argument at h
  split at h
  · split at h
    · cases h
    · exact points_of_fail into h
  · split at h
    · cases h
    · exact points_of_fail into h
  · exact points_modifier into h
  · cases h

/-- Every argument takes a character, unless a stray blank is in the way. -/
theorem stray_of_argument {tokens : List Token} (hCode : c.atLineEnd = false)
    (h : argument c = .ok (tokens, 0)) :
    ∃ ch rest, c.rest = ch :: '-' :: '-' :: rest ∧ Text.isBlank ch = true ∧ ch ≠ '\n' := by
  rw [Cursor.atLineEnd] at hCode
  unfold argument at h
  split at h
  · split at h <;> cases h
  · split at h <;> cases h
  · unfold modifier at h
    dsimp only at h
    split at h
    · cases h
    · split at h
      · rcases hValue : modifierValue (Cursor.next _) with e | ⟨value, n⟩
        · rw [hValue] at h
          cases h
        · rw [hValue] at h
          injection h with hTaken
          injection hTaken with _ hLength
          omega
      · cases h
      · split at h <;> cases h
  · injection h with hTaken
    injection hTaken with _ hLength
    rcases hRest : c.rest with _ | ⟨ch, cs⟩
    · simp [hRest] at hCode
    · rw [hRest] at hCode
      have hLine : ch ≠ '\n' := by simpa using hCode
      rw [hRest, referenceSpan] at hLength
      split at hLength
      · rename_i hStops
        have hStray : Text.isBlank ch = true ∧ ['-', '-'].isPrefixOf cs = true := by
          simpa [hLine] using hStops
        obtain ⟨rest, rfl⟩ := List.isPrefixOf_iff_prefix.mp hStray.2
        exact ⟨ch, rest, rfl, hStray.1, hLine⟩
      · cases hLength

/-- An argument takes nothing only where the text has a stray blank. -/
theorem hasStrayBlank_of_argument {tokens : List Token} (into : c.Into source)
    (hCode : (c.skip isIndentChar).atLineEnd = false)
    (h : argument (c.skip isIndentChar) = .ok (tokens, 0)) : HasStrayBlank source := by
  obtain ⟨ch, rest, hRest, hBlank, hLine⟩ := stray_of_argument hCode h
  have hIndent : isIndentChar ch = false := by
    have hHead := List.head?_dropWhile_not isIndentChar c.rest
    rw [← Cursor.rest_skip, hRest] at hHead
    simpa using hHead
  obtain ⟨passed, hSource, -⟩ := into.skip isIndentChar
  exact ⟨passed, ch, rest, by rw [hSource, hRest], hBlank, hIndent, hLine⟩

theorem points_scanArguments (into : c.Into source) (h : scanArguments c = .error e) :
    e.Points source := by
  fun_induction scanArguments c with
  | case1 => cases h
  | case2 c here _ _ hFirst =>
    cases h
    exact points_argument (into.skip _) hFirst
  | case3 c here _ _ n _ _ _ _ ih =>
    cases h
    exact ih ((into.skip _).advance n) ‹_›
  | case4 => cases h
  | case5 => cases h
  | case6 => cases h

theorem points_enter {l : Layout} {run : List Char} (into : c.Into source) (start : c.column = 1)
    (h : l.enter run c.line = .error e) : e.Points source := by
  have hPoints (p : LexProblem) : (⟨p, c.line, 1⟩ : LexFailure).Points source :=
    ⟨c, into, rfl, start.symm⟩
  unfold Layout.enter at h
  split at h
  · cases h
    exact hPoints _
  · dsimp only at h
    split at h
    · cases h
    · split at h
      · cases h
      · cases h
        exact hPoints _

theorem points_scanLine {l : Layout} (into : c.Into source) (start : c.column = 1)
    (h : scanLine l c = .error e) : e.Points source := by
  unfold scanLine at h
  dsimp only at h
  split at h
  · cases h
  split at h
  · rename_i hEnter
    cases h
    have hLine := (c.at_skip (p := isIndentChar) (by decide)).1
    rw [show c.advance (c.rest.takeWhile isIndentChar).length = c.skip isIndentChar from rfl,
      hLine] at hEnter
    exact points_enter into start hEnter
  split at h
  · rename_i hArguments
    cases h
    exact points_scanArguments ((into.advance _).advance _) hArguments
  · cases h
  · cases h

theorem into_scanArguments {tokens : List Token} {last : Cursor} (into : c.Into source)
    (h : scanArguments c = .ok (tokens, last)) : last.Into source := by
  fun_induction scanArguments c generalizing tokens last with
  | case1 c here =>
    cases h
    exact into.skip _
  | case2 => cases h
  | case3 => cases h
  | case4 c here _ _ n _ _ _ _ hMore =>
    rename_i ih
    cases h
    exact ih ((into.skip _).advance n) hMore
  | case5 => cases h
  | case6 => cases h

theorem into_scanLine {l inner : Layout} {tokens : List Token} {last : Cursor}
    (into : c.Into source) (h : scanLine l c = .ok (tokens, inner, last)) : last.Into source := by
  unfold scanLine at h
  dsimp only at h
  split at h
  · cases h
    exact (into.advance _).skip _
  split at h
  · cases h
  split at h
  · cases h
  · rename_i hArguments
    cases h
    exact into_scanArguments ((into.advance _).advance _) hArguments
  · cases h

/-- The lexer fails where a cursor can stand. -/
theorem points_scanLines {l : Layout} (into : c.Into source) (start : c.column = 1)
    (h : scanLines l c = .error e) : e.Points source := by
  fun_induction scanLines l c with
  | case1 => cases h
  | case2 l c _ _ hFirst =>
    cases h
    exact points_scanLine into start hFirst
  | case3 => cases h
  | case4 l c _ _ _ last hFirst hMore _ hRest =>
    rename_i ih
    cases h
    have hEnd := (end_of_scanLine hFirst).1
    exact ih (into_scanLine into hFirst).next (next_of_atLineEnd hEnd hMore).2 hRest
  | case5 => cases h
  | case6 => cases h
  | case7 => cases h

/-- **The lexer fails at a place in the text.** -/
theorem pointsInto_of_ofText {text : String} {f : Fault} (h : Token.ofText text = .error f) :
    f.place.PointsInto text ∧ ∃ p, f.trouble = .lex p := by
  obtain ⟨e, hTokens, rfl⟩ := Upshot.mapError_eq_error.mp h
  obtain ⟨c, hInto, hLine, hColumn⟩ := points_scanLines (Cursor.Into.start _) rfl hTokens
  refine ⟨?_, e.problem, rfl⟩
  rw [LexFailure.toFault, hLine, hColumn]
  exact hInto.pointsInto none

end Directive
