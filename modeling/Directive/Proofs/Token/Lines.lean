import Directive.Proofs.Token.Cursor

/-!
# The lines of a token list

* `Laid`: tokens in lines, with an indent or dedents in front of a line and every block closed in
  the end;
* `enter_cases`, `written_code`: what stands in front of the code of a line, and the code;
* `Laid.front`, `Laid.of_written`, `Laid.behind_line`: what the first tokens say of the others;
* `scanCode`: what stands on a line behind its indentation;
* `scanLine_of_idle`, `scanLine_of_entered`: a line without code, and one with.
-/

namespace Directive

/-- Whether a token of this kind is written with blanks and line ends only. -/
def TokenKind.isLayout : TokenKind → Bool
  | .indent => true
  | .dedent => true
  | .newline => true
  | .eof => true
  | _ => false

/-- What stands on a line. -/
def Written (ts : List Token) : Prop := ∀ t ∈ ts, t.kind.isLayout = false

/-- The tokens from the start of a line on while `depth` blocks are open. An indent comes only
where `opens` says so, which it does after a line. -/
inductive Laid : Bool → Nat → List Token → Prop
  | eof {opens : Bool} {last : Token} (kind : last.kind = .eof) : Laid opens 0 [last]
  | dedent {opens : Bool} {depth : Nat} {t : Token} {ts : List Token} (kind : t.kind = .dedent)
      (rest : Laid false depth ts) : Laid opens (depth + 1) (t :: ts)
  | line {opens : Bool} {depth : Nat} {line ts : List Token} {lineEnd : Token}
      (nonempty : line ≠ []) (written : Written line) (ended : lineEnd.kind = .newline)
      (rest : Laid true depth ts) : Laid opens depth (line ++ lineEnd :: ts)
  | indented {depth : Nat} {indent : Token} {line ts : List Token} {lineEnd : Token}
      (kind : indent.kind = .indent) (nonempty : line ≠ []) (written : Written line)
      (ended : lineEnd.kind = .newline) (rest : Laid true (depth + 1) ts) :
      Laid true depth (indent :: (line ++ lineEnd :: ts))

theorem written_header (c : Cursor) : Written (header c).1 := by
  unfold header
  split
  · simp [Written]
  · dsimp only
    split
    · simp [Written, Cursor.token, TokenKind.isLayout]
    · simp [Written, Cursor.token, TokenKind.isLayout]
    · split <;> simp [Written, Cursor.token, TokenKind.isLayout]

theorem header_of_nil {c : Cursor} (h : (header c).1 = []) : (header c).2 = 0 := by
  unfold header at h ⊢
  grind

theorem kind_of_modifierValue {c : Cursor} {t : Token} {n : Nat}
    (h : modifierValue c = .ok (t, n)) : t.kind = .modifierValue := by
  unfold modifierValue Cursor.fail at h
  split at h
  · split at h <;> cases h
    rfl
  · cases h
    rfl

theorem written_modifier {c : Cursor} {ts : List Token} {n : Nat}
    (h : modifier c = .ok (ts, n)) : ts ≠ [] ∧ Written ts := by
  unfold modifier Cursor.fail at h
  dsimp only at h
  split at h
  · cases h
  · split at h
    · rename_i hEquals
      rcases hValue : modifierValue _ with e | ⟨value, m⟩
      · rw [hValue] at h
        cases h
      · rw [hValue] at h
        cases h
        simp [Written, kind_of_modifierValue hValue, Cursor.token, TokenKind.isLayout]
    · cases h
      simp [Written, Cursor.token, TokenKind.isLayout]
    · split at h <;> cases h
      simp [Written, Cursor.token, TokenKind.isLayout]

theorem written_argument {c : Cursor} {ts : List Token} {n : Nat}
    (h : argument c = .ok (ts, n)) : ts ≠ [] ∧ Written ts := by
  unfold argument Cursor.fail at h
  split at h
  · split at h <;> cases h
    simp [Written, Cursor.token, TokenKind.isLayout]
  · split at h <;> cases h
    simp [Written, Cursor.token, TokenKind.isLayout]
  · exact written_modifier h
  · cases h
    simp [Written, Cursor.token, TokenKind.isLayout]

theorem written_scanArguments {c last : Cursor} {ts : List Token}
    (h : scanArguments c = .ok (ts, last)) :
    Written ts ∧ ((c.skip isIndentChar).atLineEnd = false → ts ≠ []) := by
  fun_induction scanArguments c generalizing ts last with
  | case1 c here =>
    rename_i hEnd
    cases h
    exact ⟨by simp [Written], fun hCode => by rw [hEnd] at hCode; cases hCode⟩
  | case2 => cases h
  | case3 => cases h
  | case4 c here _ first n hFirst _ more _ hMore =>
    rename_i ih
    cases h
    obtain ⟨hNonempty, hWritten⟩ := written_argument hFirst
    refine ⟨?_, by simp [hNonempty]⟩
    intro t ht
    rcases List.mem_append.mp ht with ht | ht
    · exact hWritten t ht
    · exact (ih hMore).1 t ht
  | case5 => cases h
  | case6 => cases h

theorem widths_indentWith {l inner : Layout} {run : List Char} (h : l.indentWith run = .ok inner) :
    inner.widths = l.widths := by
  unfold Layout.indentWith at h
  grind

/-- Whether lines may be indented with the character. -/
def Layout.Uses (l : Layout) (ch : Char) : Prop := l.char = none ∨ l.char = some ch

theorem Layout.indentWith_replicate {l : Layout} {ch : Char} (uses : l.Uses ch) (w : Nat) :
    ∃ used, l.indentWith (List.replicate w ch) = .ok used ∧ used.widths = l.widths ∧
      used.Uses ch := by
  cases w with
  | zero => exact ⟨l, rfl, rfl, uses⟩
  | succ w =>
    have hPure : ((List.replicate (w + 1) ch).contains ' ' &&
        (List.replicate (w + 1) ch).contains '\t') = false := by
      by_cases hSpace : ch = ' '
      · simp [hSpace]
      · simp [Ne.symm hSpace]
    rw [List.replicate_succ] at hPure ⊢
    rcases uses with hNone | hSame
    · refine ⟨{ l with char := some ch }, ?_, rfl, .inr rfl⟩
      rw [indentWith, hPure, if_neg Bool.false_ne_true, hNone]
    · refine ⟨l, ?_, rfl, .inr hSame⟩
      rw [indentWith, hPure, if_neg Bool.false_ne_true, hSame]
      exact if_pos rfl

/-- A line opens a block of its width, or leaves those that are wider. -/
theorem enter_cases {l inner : Layout} {run : List Char} {line : Int} {ts : List Token}
    (h : l.enter run line = .ok (inner, ts)) : inner.width = run.length ∧
    ((ts = [⟨.indent, String.ofList run, line, 1⟩] ∧ inner.widths = run.length :: l.widths ∧
      l.width < run.length) ∨
      ∃ left, ts = left.map (fun _ => ⟨.dedent, "", line, 1⟩) ∧
        l.widths = left ++ inner.widths) := by
  unfold Layout.enter at h
  split at h
  · cases h
  · rename_i used hUsed
    have hWidths := widths_indentWith hUsed
    dsimp only at h
    split at h
    · rename_i hWider
      cases h
      rw [Layout.width, hWidths] at hWider
      exact ⟨rfl, .inl ⟨rfl, by rw [hWidths], hWider⟩⟩
    · split at h
      · rename_i hWidth
        cases h
        refine ⟨hWidth, .inr ⟨used.left run.length, rfl, ?_⟩⟩
        rw [← hWidths]
        exact (List.prefix_iff_eq_append.mp (List.takeWhile_prefix _)).symm
      · cases h

/-- A line that does not end where its code begins has tokens, all of them written. -/
theorem written_code {here last : Cursor} {arguments : List Token}
    (hSkip : here.skip isIndentChar = here) (hCode : here.atLineEnd = false)
    (h : scanArguments (here.advance (header here).2) = .ok (arguments, last)) :
    (header here).1 ++ arguments ≠ [] ∧ Written ((header here).1 ++ arguments) := by
  obtain ⟨hWritten, hSome⟩ := written_scanArguments h
  refine ⟨fun hNone => ?_, fun t ht => ?_⟩
  · obtain ⟨hHeader, hArguments⟩ := List.append_eq_nil_iff.mp hNone
    rw [header_of_nil hHeader, Cursor.advance, hSkip] at hSome
    exact hSome hCode hArguments
  · rcases List.mem_append.mp ht with ht | ht
    · exact written_header here t ht
    · exact hWritten t ht

/-- Where a line ends is seen from the kinds of the tokens. -/
theorem written_unique {line line' more rest : List Token} {lineEnd : Token}
    (h : line ++ more = line' ++ lineEnd :: rest) (written : Written line)
    (written' : Written line') (ends : lineEnd.kind.isLayout = true)
    (stops : ∀ t ∈ more.head?, t.kind.isLayout = true) : more = lineEnd :: rest := by
  induction line generalizing line' with
  | nil =>
    cases line' with
    | nil => exact h
    | cons t line' =>
      subst h
      have := stops t rfl
      simp [written' t (by simp)] at this
  | cons t line ih =>
    cases line' with
    | nil =>
      cases h
      simp [written lineEnd (by simp)] at ends
    | cons t' line' =>
      simp only [List.cons_append, List.cons.injEq] at h
      exact ih h.2 (fun u hu => written u (by simp [hu])) fun u hu => written' u (by simp [hu])

namespace Laid

variable {opens : Bool} {depth : Nat} {t : Token} {ts : List Token}

theorem ne_nil (h : Laid opens depth ts) : ts ≠ [] := by
  cases h <;> simp

/-- What the first token says of the rest. -/
theorem front (h : Laid opens depth (t :: ts)) :
    t.kind = .eof ∧ depth = 0 ∧ ts = [] ∨
    t.kind = .dedent ∧ (∃ outer, depth = outer + 1 ∧ Laid false outer ts) ∨
    t.kind = .indent ∧ Laid true (depth + 1) ts ∨
    t.kind.isLayout = false ∧ ∃ line lineEnd rest, t :: ts = line ++ lineEnd :: rest ∧
      Written line ∧ lineEnd.kind = .newline ∧ Laid true depth rest := by
  generalize hAll : t :: ts = all at h
  cases h with
  | eof kind =>
    cases hAll
    exact .inl ⟨kind, rfl, rfl⟩
  | dedent kind rest =>
    cases hAll
    exact .inr (.inl ⟨kind, _, rfl, rest⟩)
  | indented kind nonempty written ended rest =>
    cases hAll
    exact .inr (.inr (.inl ⟨kind, .line nonempty written ended rest⟩))
  | @line _ _ line rest lineEnd nonempty written ended rest' =>
    refine .inr (.inr (.inr ⟨?_, line, lineEnd, rest, rfl, written, ended, rest'⟩))
    obtain ⟨first, line, rfl⟩ := List.exists_cons_of_ne_nil nonempty
    cases hAll
    exact written t (by simp)

theorem of_eof (h : Laid opens depth (t :: ts)) (kind : t.kind = .eof) :
    depth = 0 ∧ ts = [] := by
  have := h.front
  simp_all [TokenKind.isLayout]

theorem of_dedent (h : Laid opens depth (t :: ts)) (kind : t.kind = .dedent) :
    ∃ outer, depth = outer + 1 ∧ Laid false outer ts := by
  have := h.front
  simp_all [TokenKind.isLayout]

theorem of_indent (h : Laid opens depth (t :: ts)) (kind : t.kind = .indent) :
    Laid true (depth + 1) ts := by
  have := h.front
  simp_all [TokenKind.isLayout]

theorem not_newline (h : Laid opens depth (t :: ts)) : t.kind ≠ .newline := by
  intro kind
  have := h.front
  simp_all [TokenKind.isLayout]

/-- What stands on a line reaches up to its end. -/
theorem of_written {line more : List Token} (h : Laid opens depth (line ++ more))
    (nonempty : line ≠ []) (written : Written line)
    (stops : ∀ t ∈ more.head?, t.kind.isLayout = true) :
    ∃ lineEnd rest, more = lineEnd :: rest ∧ lineEnd.kind = .newline ∧ Laid true depth rest := by
  obtain ⟨first, others, rfl⟩ := List.exists_cons_of_ne_nil nonempty
  have hFirst := written first (by simp)
  obtain ⟨kind, -⟩ | ⟨kind, -⟩ | ⟨kind, -⟩ | ⟨-, line, lineEnd, rest, hAll, written', ended, laid⟩ :=
    front h
  · simp [kind, TokenKind.isLayout] at hFirst
  · simp [kind, TokenKind.isLayout] at hFirst
  · simp [kind, TokenKind.isLayout] at hFirst
  · have ends : lineEnd.kind.isLayout = true := by rw [ended]; rfl
    exact ⟨lineEnd, rest, written_unique hAll written written' ends stops, ended, laid⟩

theorem behind_line {line after : List Token} {lineEnd : Token}
    (h : Laid opens depth (line ++ lineEnd :: after)) (nonempty : line ≠ [])
    (written : Written line) (ended : lineEnd.kind = .newline) : Laid true depth after := by
  obtain ⟨_, _, hMore, -, hAfter⟩ := h.of_written nonempty written
    (by simp [ended, TokenKind.isLayout])
  cases hMore
  exact hAfter

end Laid

/-! ### The lines of a text -/

/-- Whether the line at the cursor is blank or a comment. -/
def Cursor.isIdle (c : Cursor) : Bool :=
  (c.skip isIndentChar).atLineEnd || (c.skip isIndentChar).rest.head? == some '#'

theorem scanLine_of_idle {c : Cursor} (l : Layout) (h : c.isIdle = true) :
    scanLine l c = .ok ([], l, (c.skip isIndentChar).skip (· != '\n')) :=
  if_pos h

theorem scanLine_of_not_idle {c : Cursor} (l : Layout) (h : ¬ c.isIdle = true) :
    scanLine l c =
      match l.enter (c.rest.takeWhile isIndentChar) (c.skip isIndentChar).line with
      | .error e => .error e
      | .ok (inner, lead) =>
        match scanArguments ((c.skip isIndentChar).advance (header (c.skip isIndentChar)).2) with
        | .error e => .error e
        | .ok (arguments, last) =>
          .ok (lead ++ (header (c.skip isIndentChar)).1 ++ arguments ++
            [last.token .newline ['\n']], inner, last)
        | .endless => .endless :=
  if_neg h

/-- The tokens of the code at the cursor and of the end of its line, and the cursor there. -/
def scanCode (here : Cursor) : Scanning (List Token × Cursor) :=
  (scanArguments (here.advance (header here).2)).map fun p =>
    ((header here).1 ++ p.1 ++ [p.2.token .newline ['\n']], p.2)

/-- The layout of a line of code is settled before the code is read. -/
theorem scanLine_of_entered {c here : Cursor} (l : Layout) (h : ¬ c.isIdle = true)
    (hHere : c.skip isIndentChar = here) :
    scanLine l c =
      (Upshot.ofExcept (l.enter (c.rest.takeWhile isIndentChar) here.line)).bind fun entered =>
        (scanCode here).map fun code => (entered.2 ++ code.1, entered.1, code.2) := by
  subst hHere
  rw [scanLine_of_not_idle l h, scanCode]
  rcases l.enter (c.rest.takeWhile isIndentChar) (c.skip isIndentChar).line with e | ⟨inner, lead⟩
  · rfl
  · change _ = Upshot.map _ _
    rcases scanArguments ((c.skip isIndentChar).advance (header (c.skip isIndentChar)).2) with
      e | ⟨arguments, last⟩ | _
    · rfl
    · simp [Upshot.map]
    · rfl

end Directive
