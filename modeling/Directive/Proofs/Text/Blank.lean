import Mathlib.Data.List.TakeWhile
import Directive.Text.Blank

/-!
# Trimmed texts and joined line ends

* `trimEndChars_eq_self`, `trimChars_eq_self`: a text without blanks around it is already trimmed;
* `trimChars_within`, `trimChars_trimChars`: what trimming leaves of a text;
* `count_joinLineEnds`, `getLast?_joinLineEnds`: what joining line ends keeps of a text;
* `Joined`: the texts that `joinLineEnds` leaves as they are, whatever is put behind them.
-/

namespace Directive.Text

theorem trimEndChars_eq_self {text : List Char} (h : ∀ c ∈ text.getLast?, isBlank c = false) :
    trimEndChars text = text := by
  rw [trimEndChars]
  rcases hReverse : text.reverse with _ | ⟨c, cs⟩
  · simpa using hReverse
  · have hLast : text.getLast? = some c := by rw [← List.head?_reverse, hReverse]; rfl
    rw [List.dropWhile_cons_of_neg (by simp [h c hLast]), ← hReverse, List.reverse_reverse]

/-- A text is trimmed already if it neither begins nor ends with a blank. -/
theorem trimChars_eq_self {text : List Char} (front : ∀ c ∈ text.head?, isBlank c = false)
    (back : ∀ c ∈ text.getLast?, isBlank c = false) : trimChars text = text := by
  have hFront : trimStartChars text = text := by
    cases text with
    | nil => rfl
    | cons c cs => exact List.dropWhile_cons_of_neg (by simp [front c rfl])
  rw [trimChars, hFront]
  exact trimEndChars_eq_self back

theorem trimEndChars_append (text : List Char) :
    ∃ blanks, text = trimEndChars text ++ blanks ∧ ∀ c ∈ blanks, isBlank c = true := by
  refine ⟨(text.reverse.takeWhile isBlank).reverse, ?_, fun c hc => ?_⟩
  · rw [trimEndChars, ← List.reverse_append, List.takeWhile_append_dropWhile, List.reverse_reverse]
  · exact List.all_eq_true.mp List.all_takeWhile c (List.mem_reverse.mp hc)

/-- Trimming takes away nothing but blanks in front and behind. -/
theorem trimChars_within (text : List Char) :
    ∃ front back, text = front ++ (trimChars text ++ back) ∧
      (∀ c ∈ front, isBlank c = true) ∧ ∀ c ∈ back, isBlank c = true := by
  obtain ⟨back, hBack, hBlank⟩ := trimEndChars_append (trimStartChars text)
  refine ⟨text.takeWhile isBlank, back, ?_, ?_, hBlank⟩
  · rw [trimChars, ← hBack, trimStartChars, List.takeWhile_append_dropWhile]
  · intro c hc
    exact List.all_eq_true.mp List.all_takeWhile c hc

theorem notBlank_head?_trimChars (text : List Char) :
    ∀ c ∈ (trimChars text).head?, isBlank c = false := by
  have hPrefix : trimChars text <+: trimStartChars text := by
    rw [← List.reverse_suffix, trimChars, trimEndChars, List.reverse_reverse]
    exact List.dropWhile_suffix isBlank
  obtain ⟨blanks, hBlanks⟩ := hPrefix
  intro c hc
  have hStart : (trimStartChars text).head? = some c := by
    rw [← hBlanks, List.head?_append, Option.mem_def.mp hc]
    rfl
  have hFirst := List.head?_dropWhile_not isBlank text
  rw [trimStartChars] at hStart
  rw [hStart] at hFirst
  exact hFirst

theorem notBlank_getLast?_trimChars (text : List Char) :
    ∀ c ∈ (trimChars text).getLast?, isBlank c = false := by
  intro c hc
  rw [trimChars, trimEndChars, List.getLast?_reverse, Option.mem_def] at hc
  have hFirst := List.head?_dropWhile_not isBlank (trimStartChars text).reverse
  rw [hc] at hFirst
  exact hFirst

theorem trimChars_trimChars (text : List Char) : trimChars (trimChars text) = trimChars text :=
  trimChars_eq_self (notBlank_head?_trimChars text) (notBlank_getLast?_trimChars text)

theorem joinLineEnds_append {front back : List Char}
    (h : front.getLast? ≠ some '\r' ∨ back.head? ≠ some '\n') :
    joinLineEnds (front ++ back) = joinLineEnds front ++ joinLineEnds back := by
  fun_induction joinLineEnds front with
  | case1 cs ih =>
    have hRest : cs.getLast? ≠ some '\r' ∨ back.head? ≠ some '\n' := by
      refine h.imp_left fun hLast hSame => hLast ?_
      rw [List.getLast?_cons, List.getLast?_cons, hSame]
      rfl
    rw [List.cons_append, List.cons_append, joinLineEnds, ih hRest, List.cons_append]
  | case2 c cs hNotPair ih =>
    have hRest : cs.getLast? ≠ some '\r' ∨ back.head? ≠ some '\n' := by
      refine h.imp_left fun hLast hSame => hLast ?_
      rw [List.getLast?_cons, hSame]
      rfl
    rw [List.cons_append, joinLineEnds, ih hRest, List.cons_append]
    rintro rest rfl hPair
    rcases cs with _ | ⟨d, cs⟩
    · rw [List.nil_append] at hPair
      subst hPair
      simp at h
    · cases hPair
      exact hNotPair _ rfl rfl
  | case3 => rfl

theorem joinLineEnds_of_no_pair {text : List Char} (h : ¬ ['\r', '\n'] <:+: text) :
    joinLineEnds text = text := by
  fun_induction joinLineEnds text with
  | case1 cs => exact absurd ⟨[], cs, rfl⟩ h
  | case2 c cs _ ih => rw [ih fun hPair => h (hPair.trans (List.suffix_cons c cs).isInfix)]
  | case3 => rfl

theorem count_joinLineEnds (text : List Char) :
    (joinLineEnds text).count '\n' = text.count '\n' := by
  fun_induction joinLineEnds text with
  | case1 cs ih => simp [ih]
  | case2 c cs _ ih => rw [List.count_cons, List.count_cons, ih]
  | case3 => rfl

theorem getLast?_joinLineEnds {text : List Char} (h : text.getLast? = some '\n') :
    (joinLineEnds text).getLast? = some '\n' := by
  fun_induction joinLineEnds text with
  | case1 cs ih =>
    rcases cs with _ | ⟨d, cs⟩
    · rfl
    · rw [List.getLast?_cons_cons, List.getLast?_cons_cons] at h
      rw [List.getLast?_cons, ih h]
      rfl
  | case2 c cs _ ih =>
    rcases cs with _ | ⟨d, cs⟩
    · exact h
    · rw [List.getLast?_cons_cons] at h
      rw [List.getLast?_cons, ih h]
      rfl
  | case3 => cases h

/-- A text that `joinLineEnds` leaves as it is, whatever is put behind it. -/
structure Joined (text : List Char) : Prop where
  kept : joinLineEnds text = text
  complete : text.getLast? ≠ some '\r'

namespace Joined

theorem nil : Joined [] := ⟨rfl, by simp⟩

theorem append {front back : List Char} (hFront : Joined front) (hBack : Joined back) :
    Joined (front ++ back) := by
  refine ⟨?_, ?_⟩
  · rw [joinLineEnds_append (.inl hFront.complete), hFront.kept, hBack.kept]
  · rw [List.getLast?_append]
    cases hLast : back.getLast? with
    | none => exact hFront.complete
    | some c => rw [Option.some_or, ← hLast]; exact hBack.complete

theorem flatMap {α : Type} {l : List α} {f : α → List Char} (h : ∀ a ∈ l, Joined (f a)) :
    Joined (l.flatMap f) := by
  induction l with
  | nil => exact nil
  | cons a l ih =>
    exact (h a (by simp)).append (ih fun b hb => h b (by simp [hb]))

theorem of_line {text : List Char} (hLine : '\n' ∉ text) (hLast : text.getLast? ≠ some '\r') :
    Joined text :=
  ⟨joinLineEnds_of_no_pair fun h => hLine (h.subset (by simp)), hLast⟩

end Joined

end Directive.Text
