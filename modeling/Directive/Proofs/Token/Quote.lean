import Directive.Token.Lexer

/-!
# Quotes and phrases

The ways to write a text on a line, and that the lexer finds where it ends.

* `quote`, `blockQuote`: a string in quotes, with escapes, and in three quotes, as it is;
* `IsPhrase`: the texts that can be written bare;
* `EndsLine`, `PhraseEnd`: the texts that can stand behind a line, and behind a phrase;
* `quotedBody?_flatMap_escape`, `blockBody?_append`, `referenceSpan_append`: each is read up to its
  end, whatever follows.
-/

namespace Directive

def escape : Char → List Char
  | '\\' => ['\\', '\\']
  | '"' => ['\\', '"']
  | '\n' => ['\\', 'n']
  | '\t' => ['\\', 't']
  | c => [c]

def quote (text : List Char) : List Char := '"' :: (text.flatMap escape ++ ['"'])

def blockQuote (text : List Char) : List Char := '"' :: '"' :: '"' :: (text ++ ['"', '"', '"'])

/-- A text that closes its own block. -/
def ClosesBlock (text : List Char) : Prop :=
  ['"', '"', '"'] <:+: text ∨ text.getLast? = some '"'

structure IsPhrase (text : List Char) : Prop where
  nonempty : text ≠ []
  oneLine : '\n' ∉ text
  noBlankFirst : ∀ c ∈ text.head?, Text.isBlank c = false
  noBlankLast : ∀ c ∈ text.getLast?, Text.isBlank c = false
  noQuote : text.head? ≠ some '"'
  noDashes : ¬ ['-', '-'] <+: text
  noGap : ∀ c, Text.isBlank c = true → ¬ [c, '-', '-'] <:+: text

theorem noBreak_quote (text : List Char) : '\n' ∉ quote text := by
  have hEscape : ∀ c, '\n' ∉ escape c := by
    intro c
    unfold escape
    split <;> simp_all [eq_comm]
  simp [quote, hEscape]

theorem quotedBody?_escape (c : Char) (cs : List Char) :
    quotedBody? (escape c ++ cs) =
      (quotedBody? cs).map fun (text, n) => (c :: text, n + (escape c).length) := by
  unfold escape
  split
  · simp [quotedBody?, unescape]
  · simp [quotedBody?, unescape]
  · simp [quotedBody?, unescape]
  · simp [quotedBody?, unescape]
  · rename_i hSlash hQuote hLine hTab
    rw [List.singleton_append, quotedBody?.eq_def]
    split <;> simp_all

theorem quotedBody?_flatMap_escape (text more : List Char) :
    quotedBody? (text.flatMap escape ++ '"' :: more) =
      some (text, (text.flatMap escape).length + 1) := by
  induction text with
  | nil => rfl
  | cons c text ih =>
    rw [List.flatMap_cons, List.append_assoc, quotedBody?_escape, ih]
    simp only [Option.map_some, List.length_append]
    rw [Nat.add_comm (escape c).length, Nat.add_right_comm]

theorem blockBody?_append {text more : List Char} (h : ¬ ClosesBlock text) :
    blockBody? (text ++ '"' :: '"' :: '"' :: more) = some text := by
  induction text with
  | nil => rfl
  | cons c text ih =>
    have hRest : ¬ ClosesBlock text := by
      rintro (hInside | hLast)
      · exact h (.inl (hInside.trans (List.suffix_cons c text).isInfix))
      · refine h (.inr ?_)
        rw [List.getLast?_cons, hLast]
        rfl
    rw [List.cons_append, blockBody?.eq_def]
    split
    · contradiction
    · rename_i rest hFirst
      exfalso
      injection hFirst with hQuote hMore
      subst hQuote
      rcases text with _ | ⟨d, _ | ⟨e, text⟩⟩
      · exact h (.inr rfl)
      · cases hMore
        exact h (.inr rfl)
      · cases hMore
        exact h (.inl ⟨[], text, rfl⟩)
    · rename_i hFirst
      cases hFirst
      rw [ih hRest]
      rfl

/-- Where the text of a line can be in front of: a line end, or nothing. -/
def EndsLine (tail : List Char) : Prop := ∀ c ∈ tail.head?, c = '\n'

namespace EndsLine

variable {tail : List Char}

theorem nil : EndsLine [] := by simp [EndsLine]

theorem cons (more : List Char) : EndsLine ('\n' :: more) := by simp [EndsLine]

theorem cases (h : EndsLine tail) : tail = [] ∨ ∃ more, tail = '\n' :: more := by
  cases tail with
  | nil => exact .inl rfl
  | cons c tail => exact .inr ⟨tail, by rw [h c rfl]⟩

end EndsLine

/-- What stands after a phrase: a modifier or the end of the line. -/
def PhraseEnd (more : List Char) : Prop :=
  EndsLine more ∨ ∃ rest, more = ' ' :: '-' :: '-' :: rest

theorem referenceSpan_phraseEnd {more : List Char} (h : PhraseEnd more) :
    referenceSpan more = [] := by
  obtain (rfl | ⟨rest, rfl⟩) | ⟨rest, rfl⟩ := h.imp_left EndsLine.cases
  · rfl
  · rfl
  · rfl

theorem referenceSpan_append {text more : List Char} (hMore : PhraseEnd more)
    (oneLine : '\n' ∉ text) (noBlankLast : ∀ c ∈ text.getLast?, Text.isBlank c = false)
    (noGap : ∀ c, Text.isBlank c = true → ¬ [c, '-', '-'] <:+: text) :
    referenceSpan (text ++ more) = text := by
  induction text with
  | nil => exact referenceSpan_phraseEnd hMore
  | cons c text ih =>
    have hSpan := ih (fun h => oneLine (List.mem_cons_of_mem c h))
      (fun d hd => noBlankLast d (by rw [List.getLast?_cons, hd]; rfl))
      fun d hd h => noGap d hd (h.trans (List.suffix_cons c text).isInfix)
    have hStays :
        (c == '\n' || (Text.isBlank c && ['-', '-'].isPrefixOf (text ++ more))) = false := by
      rw [Bool.or_eq_false_iff, Bool.and_eq_false_iff, beq_eq_false_iff_ne]
      refine ⟨fun h => oneLine (by simp [h]), ?_⟩
      by_cases hBlank : Text.isBlank c = true
      · -- The two hyphens would stand in the text, or reach over its end.
        rcases text with _ | ⟨d, _ | ⟨e, text⟩⟩
        · exact absurd hBlank (by simpa using noBlankLast c rfl)
        · right
          obtain (rfl | ⟨rest, rfl⟩) | ⟨rest, rfl⟩ := hMore.imp_left EndsLine.cases <;>
            simp [List.isPrefixOf]
        · refine .inr (Bool.eq_false_iff.mpr fun hHyphens => noGap c hBlank ?_)
          simp only [List.cons_append, List.isPrefixOf, Bool.and_eq_true, beq_iff_eq] at hHyphens
          obtain ⟨rfl, rfl, -⟩ := hHyphens
          exact ⟨[], text, rfl⟩
      · exact .inl (by simpa using hBlank)
    rw [List.cons_append, referenceSpan, hStays, if_neg Bool.false_ne_true, hSpan]

end Directive
