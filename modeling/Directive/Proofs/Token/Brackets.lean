import Mathlib.Data.List.Chain
import Directive.Proofs.Token.Places

/-!
# Indents and dedents as brackets

* `nesting`: the blocks that some tokens open, less those that they close;
* `StaysAbove`, `Balanced`: tokens that close no block but those that are open, and all that they
  open themselves;
* `EndsOnce`: tokens with the end of the input in the end, and nowhere else;
* `Follows`: what may stand directly behind a token;
* `Bracketed`, `bracketed_of_laid`: tokens in lines are brackets around lines.
-/

namespace Directive

/-- The indents less the dedents. -/
def nesting (ts : List Token) : Int :=
  ts.countP (·.kind = .indent) - ts.countP (·.kind = .dedent)

@[simp]
theorem nesting_nil : nesting [] = 0 := rfl

@[simp]
theorem nesting_append (front back : List Token) :
    nesting (front ++ back) = nesting front + nesting back := by
  simp only [nesting, List.countP_append]
  omega

theorem nesting_cons (t : Token) (ts : List Token) : nesting (t :: ts) = nesting [t] + nesting ts :=
  nesting_append [t] ts

section Single

variable {t : Token}

theorem nesting_indent (h : t.kind = .indent) : nesting [t] = 1 := by
  simp [nesting, h]

theorem nesting_dedent (h : t.kind = .dedent) : nesting [t] = -1 := by
  simp [nesting, h]

theorem nesting_other (h : t.kind ≠ .indent) (h' : t.kind ≠ .dedent) : nesting [t] = 0 := by
  simp [nesting, h, h']

end Single

/-- While `depth` blocks are open, the tokens never close more than that. -/
def StaysAbove (depth : Int) (ts : List Token) : Prop :=
  ∀ front, front <+: ts → 0 ≤ depth + nesting front

namespace StaysAbove

variable {depth : Int} {t : Token} {ts more : List Token}

theorem nil (h : 0 ≤ depth) : StaysAbove depth [] := by
  intro front hFront
  rw [List.prefix_nil.mp hFront]
  simpa using h

theorem cons (h : 0 ≤ depth) (rest : StaysAbove (depth + nesting [t]) ts) :
    StaysAbove depth (t :: ts) := by
  intro front hFront
  obtain rfl | ⟨others, rfl, hOthers⟩ := List.prefix_cons_iff.mp hFront
  · simpa using h
  · have hRest := rest others hOthers
    rw [nesting_cons]
    omega

theorem append (h : StaysAbove depth ts) (rest : StaysAbove (depth + nesting ts) more) :
    StaysAbove depth (ts ++ more) := by
  induction ts generalizing depth with
  | nil => simpa using rest
  | cons t ts ih =>
    have hHere : 0 ≤ depth := by simpa using h [] List.nil_prefix
    refine cons hHere (ih ?_ ?_)
    · intro front hFront
      have hFirst := h (t :: front) (List.cons_prefix_cons.mpr ⟨rfl, hFront⟩)
      rw [nesting_cons] at hFirst
      omega
    · rw [nesting_cons] at rest
      rwa [Int.add_assoc]

theorem deeper {outer : Int} (h : StaysAbove depth ts) (le : depth ≤ outer) :
    StaysAbove outer ts := by
  intro front hFront
  have hFront := h front hFront
  omega

end StaysAbove

/-- Tokens that close just the blocks that they open, each behind its opening. -/
structure Balanced (ts : List Token) : Prop where
  above : StaysAbove 0 ts
  level : nesting ts = 0

namespace Balanced

variable {ts more : List Token}

theorem nil : Balanced [] := ⟨.nil (Int.le_refl 0), rfl⟩

theorem append (h : Balanced ts) (hMore : Balanced more) : Balanced (ts ++ more) := by
  constructor
  · apply h.above.append
    rw [h.level]
    exact hMore.above
  · rw [nesting_append, h.level, hMore.level, Int.add_zero]

theorem flat {t : Token} (h : t.kind ≠ .indent) (h' : t.kind ≠ .dedent) : Balanced [t] := by
  have hLevel := nesting_other h h'
  refine ⟨.cons (Int.le_refl 0) (.nil ?_), hLevel⟩
  omega

theorem of_written (h : Written ts) : Balanced ts := by
  induction ts with
  | nil => exact nil
  | cons t ts ih =>
    have hFirst := h t List.mem_cons_self
    have hRest : Written ts := fun u hu => h u (List.mem_cons_of_mem t hu)
    refine (flat (t := t) ?_ ?_).append (ih hRest)
    · intro hKind
      simp [hKind, TokenKind.isLayout] at hFirst
    · intro hKind
      simp [hKind, TokenKind.isLayout] at hFirst

/-- A line and its end. -/
theorem line {lineEnd : Token} (h : Written ts) (ended : lineEnd.kind = .newline) :
    Balanced (ts ++ [lineEnd]) :=
  (of_written h).append (flat (by simp [ended]) (by simp [ended]))

/-- A block with the tokens around it. -/
theorem block {indent dedent : Token} (opened : indent.kind = .indent)
    (closed : dedent.kind = .dedent) (h : Balanced ts) :
    Balanced (indent :: (ts ++ [dedent])) := by
  have hOpened := nesting_indent opened
  have hClosed := nesting_dedent closed
  have hLevel := h.level
  constructor
  · apply StaysAbove.cons (Int.le_refl 0)
    apply (h.above.deeper (by omega)).append
    apply StaysAbove.cons (by omega)
    exact .nil (by omega)
  · rw [nesting_cons, nesting_append]
    omega

end Balanced

/-- The end of the input stands behind all other tokens, and nowhere else. -/
def EndsOnce (ts : List Token) : Prop :=
  ∃ front last, ts = front ++ [last] ∧ last.kind = .eof ∧ ∀ t ∈ front, t.kind ≠ .eof

namespace EndsOnce

variable {t : Token} {line ts : List Token}

theorem cons (h : EndsOnce ts) (kind : t.kind ≠ .eof) : EndsOnce (t :: ts) := by
  obtain ⟨front, last, rfl, hLast, hFront⟩ := h
  exact ⟨t :: front, last, rfl, hLast, List.forall_mem_cons.mpr ⟨kind, hFront⟩⟩

theorem behind (h : EndsOnce ts) (written : Written line) : EndsOnce (line ++ ts) := by
  induction line with
  | nil => exact h
  | cons t line ih =>
    apply (ih fun u hu => written u (List.mem_cons_of_mem t hu)).cons
    intro hEof
    simpa [hEof, TokenKind.isLayout] using written t List.mem_cons_self

end EndsOnce

/-- What may stand directly behind a token: an indent behind the end of a line only, what is written
behind an indent, and the end of a line behind something written. -/
structure Follows (t next : Token) : Prop where
  indent : next.kind = .indent → t.kind = .newline
  indented : t.kind = .indent → next.kind.isLayout = false
  newline : next.kind = .newline → t.kind.isLayout = false

/-- Brackets around lines. -/
structure Bracketed (ts : List Token) : Prop where
  ended : EndsOnce ts
  balanced : Balanced ts
  /-- An indent stands at the start or behind the end of a line, and something written behind it. -/
  indent : ∀ front t back, ts = front ++ t :: back → t.kind = .indent →
    (∀ previous ∈ front.getLast?, previous.kind = .newline) ∧
      ∃ next ∈ back.head?, next.kind.isLayout = false
  /-- A line ends behind something written. -/
  newline : ∀ front t back, ts = front ++ t :: back → t.kind = .newline →
    ∃ previous ∈ front.getLast?, previous.kind.isLayout = false

namespace Follows

variable {t next : Token}

theorem of_written (written : t.kind.isLayout = false) (h : next.kind ≠ .indent) :
    Follows t next := by
  refine ⟨fun hIndent => absurd hIndent h, fun hIndent => ?_, fun _ => written⟩
  simp [hIndent, TokenKind.isLayout] at written

theorem of_indented (written : next.kind.isLayout = false) :
    Follows t next := by
  constructor
  · intro hNext
    simp [hNext, TokenKind.isLayout] at written
  · exact fun _ => written
  · intro hNext
    simp [hNext, TokenKind.isLayout] at written

theorem of_dedent (h : t.kind = .dedent) (hIndent : next.kind ≠ .indent)
    (hNewline : next.kind ≠ .newline) : Follows t next :=
  ⟨fun h' => absurd h' hIndent, by simp [h], fun h' => absurd h' hNewline⟩

theorem of_newline (h : t.kind = .newline) (hNewline : next.kind ≠ .newline) : Follows t next :=
  ⟨fun _ => h, by simp [h], fun h' => absurd h' hNewline⟩

end Follows

theorem isChain_line {line ts : List Token} {lineEnd : Token} (written : Written line)
    (ended : lineEnd.kind = .newline) (nonempty : line ≠ [])
    (rest : (lineEnd :: ts).IsChain Follows) : (line ++ lineEnd :: ts).IsChain Follows := by
  induction line with
  | nil => exact absurd rfl nonempty
  | cons t line ih =>
    have hFirst : t.kind.isLayout = false := written t List.mem_cons_self
    have hOthers : Written line := fun u hu => written u (List.mem_cons_of_mem t hu)
    cases line with
    | nil => exact .cons_cons (.of_written hFirst (by simp [ended])) rest
    | cons u line =>
      have hSecond := hOthers u List.mem_cons_self
      refine .cons_cons (.of_written hFirst fun hIndent => ?_) (ih hOthers (List.cons_ne_nil _ _))
      simp [hIndent, TokenKind.isLayout] at hSecond

namespace Laid

variable {opens : Bool} {depth : Nat} {t : Token} {ts : List Token}

theorem opens_of_indent (h : Laid opens depth (t :: ts)) (kind : t.kind = .indent) :
    opens = true := by
  generalize hAll : t :: ts = all at h
  cases h with
  | eof hEof =>
    cases hAll
    simp [kind] at hEof
  | dedent hDedent =>
    cases hAll
    simp [kind] at hDedent
  | indented => rfl
  | line nonempty written =>
    obtain ⟨first, line, rfl⟩ := List.exists_cons_of_ne_nil nonempty
    cases hAll
    have hFirst := written t List.mem_cons_self
    simp [kind, TokenKind.isLayout] at hFirst

/-- The blocks that are open are closed in the end, and no others. -/
theorem level (h : Laid opens depth ts) : depth + nesting ts = 0 := by
  induction h with
  | eof kind => simp [nesting, kind]
  | dedent kind _ ih =>
    rw [nesting_cons, nesting_dedent kind]
    omega
  | line _ written ended _ ih =>
    rw [List.append_cons, nesting_append, (Balanced.line written ended).level]
    omega
  | indented kind _ written ended _ ih =>
    rw [nesting_cons, nesting_indent kind, List.append_cons, nesting_append,
      (Balanced.line written ended).level]
    omega

theorem staysAbove (h : Laid opens depth ts) : StaysAbove depth ts := by
  induction h with
  | eof kind =>
    exact (Balanced.flat (by simp [kind]) (by simp [kind])).above
  | dedent kind _ ih =>
    apply StaysAbove.cons (by omega)
    rw [nesting_dedent kind]
    exact ih.deeper (by omega)
  | line _ written ended _ ih =>
    rw [List.append_cons]
    have hLine := Balanced.line written ended
    apply (hLine.above.deeper (by omega)).append
    rw [hLine.level]
    exact ih.deeper (by omega)
  | indented kind _ written ended _ ih =>
    have hLine := Balanced.line written ended
    apply StaysAbove.cons (by omega)
    rw [List.append_cons, nesting_indent kind]
    apply (hLine.above.deeper (by omega)).append
    rw [hLine.level]
    exact ih.deeper (by omega)

theorem endsOnce (h : Laid opens depth ts) : EndsOnce ts := by
  induction h with
  | eof kind => exact ⟨[], _, rfl, kind, by simp⟩
  | dedent kind _ ih => exact ih.cons (by simp [kind])
  | line _ written ended _ ih => exact (ih.cons (by simp [ended])).behind written
  | indented kind _ written ended _ ih =>
    exact ((ih.cons (by simp [ended])).behind written).cons (by simp [kind])

theorem isChain (h : Laid opens depth ts) : ts.IsChain Follows := by
  induction h with
  | eof => exact .singleton _
  | @dedent _ _ t ts kind rest ih =>
    obtain ⟨next, ts, rfl⟩ := List.exists_cons_of_ne_nil rest.ne_nil
    refine .cons_cons (.of_dedent kind (fun hIndent => ?_) rest.not_newline) ih
    cases rest.opens_of_indent hIndent
  | @line _ _ line ts lineEnd nonempty written ended rest ih =>
    obtain ⟨next, ts, rfl⟩ := List.exists_cons_of_ne_nil rest.ne_nil
    apply isChain_line written ended nonempty
    exact .cons_cons (.of_newline ended rest.not_newline) ih
  | @indented _ indent line ts lineEnd kind nonempty written ended rest ih =>
    obtain ⟨next, ts, rfl⟩ := List.exists_cons_of_ne_nil rest.ne_nil
    have hLine : (line ++ lineEnd :: next :: ts).IsChain Follows := by
      apply isChain_line written ended nonempty
      exact .cons_cons (.of_newline ended rest.not_newline) ih
    obtain ⟨first, line, rfl⟩ := List.exists_cons_of_ne_nil nonempty
    exact .cons_cons (.of_indented (written first List.mem_cons_self)) hLine

end Laid

/-- Tokens in lines, with every block closed, are brackets around lines. -/
theorem bracketed_of_laid {opens : Bool} {ts : List Token} (h : Laid opens 0 ts) :
    Bracketed ts where
  ended := h.endsOnce
  balanced := ⟨h.staysAbove, by simpa using h.level⟩
  indent := by
    rintro front t back rfl hKind
    obtain ⟨-, hBack, hBehind⟩ := List.isChain_append.mp h.isChain
    refine ⟨fun previous hPrevious => (hBehind previous hPrevious t rfl).indent hKind, ?_⟩
    cases back with
    | nil =>
      obtain ⟨front', last, hLast, hEof, -⟩ := h.endsOnce
      obtain ⟨-, hSame⟩ := List.append_inj' hLast rfl
      cases hSame
      simp [hKind] at hEof
    | cons next back => exact ⟨next, rfl, hBack.rel.indented hKind⟩
  newline := by
    rintro front t back rfl hKind
    obtain ⟨-, -, hBehind⟩ := List.isChain_append.mp h.isChain
    cases hLast : front.getLast? with
    | none =>
      cases List.getLast?_eq_none_iff.mp hLast
      exact absurd hKind h.not_newline
    | some previous => exact ⟨previous, rfl, (hBehind previous hLast t rfl).newline hKind⟩

end Directive
