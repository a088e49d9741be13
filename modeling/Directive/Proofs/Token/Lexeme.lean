import Directive.Proofs.Token.Cursor
import Directive.Proofs.Token.Quote

/-!
# What tokens are read from

* `Token.Spelled`: the characters that a token is written with;
* `Spacing`: what may be written between two tokens and belongs to neither;
* `Covers`: tokens that are read off a text from left to right, with no other character left out;
* `Covers.sorted`: such tokens stand one behind the other.
-/

namespace Directive

/-- What is written between the quotes of a string, and the text it stands for. -/
inductive QuotedAs : List Char → List Char → Prop
  | nil : QuotedAs [] []
  | escaped {c : Char} {body text : List Char} (oneLine : c ≠ '\n') (more : QuotedAs body text) :
      QuotedAs ('\\' :: c :: body) (unescape c ++ text)
  | plain {c : Char} {body text : List Char} (unquoted : c ≠ '"') (unescaped : c ≠ '\\')
      (oneLine : c ≠ '\n') (more : QuotedAs body text) : QuotedAs (c :: body) (c :: text)

/-- The token is written as `span` in front of `more`. -/
def Token.Spelled (t : Token) (span more : List Char) : Prop :=
  match t.kind with
  | .commandName => span = t.text.toList
  | .colon => span = [':']
  | .quotedString => ∃ body, QuotedAs body t.text.toList ∧ span = '"' :: (body ++ ['"'])
  | .blockString => span = blockQuote t.text.toList
  | .modifierKey => span = '-' :: '-' :: t.text.toList
  | .modifierValue => span = t.text.toList ∨
      ∃ body, QuotedAs body t.text.toList ∧ span = '"' :: (body ++ ['"'])
  | .bareReference => span = t.text.toList
  | .indent => t.column = 1 ∧ span = t.text.toList ∧ (∀ c ∈ span, isIndentChar c = true) ∧
      ∀ c ∈ more.head?, isIndentChar c = false
  | .dedent => span = []
  | .newline => span = ['\n'] ∨ span = [] ∧ more = []
  | .eof => span = [] ∧ more = []

/-- The characters of a line without tokens. -/
inductive UnreadLine : List Char → Prop
  | blank {run : List Char} (blanks : ∀ c ∈ run, isIndentChar c = true) : UnreadLine run
  | comment {run text : List Char} (blanks : ∀ c ∈ run, isIndentChar c = true)
      (oneLine : '\n' ∉ text) : UnreadLine (run ++ '#' :: text)

/-- Lines without tokens, each with its line end. -/
inductive UnreadLines : List Char → Prop
  | none : UnreadLines []
  | line {line lines : List Char} (unread : UnreadLine line) (more : UnreadLines lines) :
      UnreadLines (line ++ '\n' :: lines)

/-- Whether what follows a token of this kind, or nothing at all, is the start of a line. -/
def StartsLine : Option TokenKind → Prop
  | none => True
  | some .newline => True
  | some .indent => True
  | some .dedent => True
  | _ => False

/-- Whether a token of this kind may stand behind blanks of its line. -/
def TokenKind.isInLine : TokenKind → Bool
  | .modifierValue => false
  | .indent => false
  | .dedent => false
  | .eof => false
  | _ => true

/-- What stands between two tokens, and in front of `rest`, but belongs to neither token. The first
token is given by its kind, the second is of kind `next`. -/
inductive Spacing : Option TokenKind → List Char → TokenKind → List Char → Prop
  | layout {last : Option TokenKind} {lines rest : List Char} {next : TokenKind}
      (starts : StartsLine last) (unread : UnreadLines lines)
      (layout : next = .indent ∨ next = .dedent ∨ next = .eof) : Spacing last lines next rest
  | unfinished {last : Option TokenKind} {lines line : List Char} {next : TokenKind}
      (starts : StartsLine last) (unread : UnreadLines lines) (unfinished : UnreadLine line)
      (layout : next = .dedent ∨ next = .eof) : Spacing last (lines ++ line) next []
  | code {last : Option TokenKind} {lines run rest : List Char} {next : TokenKind}
      (starts : StartsLine last) (unread : UnreadLines lines)
      (blanks : ∀ c ∈ run, isIndentChar c = true) (inLine : next.isInLine = true) :
      Spacing last (lines ++ run) next rest
  | within {last next : TokenKind} {run rest : List Char}
      (blanks : ∀ c ∈ run, isIndentChar c = true) (inLine : next.isInLine = true) :
      Spacing (some last) run next rest
  | trimmed {next : TokenKind} {trimmed run rest : List Char}
      (blank : ∀ c ∈ trimmed, Text.isBlank c = true ∧ c ≠ '\n')
      (blanks : ∀ c ∈ run, isIndentChar c = true) (inLine : next.isInLine = true) :
      Spacing (some .bareReference) (trimmed ++ run) next rest
  | equals {rest : List Char} : Spacing (some .modifierKey) ['='] .modifierValue rest

/-- The tokens that are read off a text behind a token and behind everything that was read up to
it: a gap, a token where the gap ends, and so on to the end of the text. -/
inductive Covers : Option TokenKind → List Char → List Char → List Token → Prop
  | done {last : Option TokenKind} {passed : List Char} : Covers last passed [] []
  | token {last : Option TokenKind} {passed gap span more : List Char} {t : Token} {ts : List Token}
      (spacing : Spacing last gap t.kind (span ++ more))
      (line : t.line = 1 + (passed ++ gap).count '\n')
      (column : t.column = columnAfter (passed ++ gap) 1)
      (spelled : t.Spelled span more)
      (rest : Covers (some t.kind) (passed ++ gap ++ span) more ts) :
      Covers last passed (gap ++ (span ++ more)) (t :: ts)

/-- The first token does not stand behind the second. -/
def Token.NotBehind (t u : Token) : Prop := t.line < u.line ∨ t.line = u.line ∧ t.column ≤ u.column

/-- A text ends no earlier than a part at its front. -/
theorem place_le_append (front more : List Char) :
    (1 + front.count '\n' : Int) < 1 + (front ++ more).count '\n' ∨
      (1 + front.count '\n' : Int) = 1 + (front ++ more).count '\n' ∧
        columnAfter front 1 ≤ columnAfter (front ++ more) 1 := by
  rw [List.count_append]
  by_cases hLine : '\n' ∈ more
  · have : 0 < more.count '\n' := List.count_pos_iff.mpr hLine
    exact .inl (by omega)
  · have hColumn : columnAfter (front ++ more) 1 = columnAfter front 1 + more.length := by
      rw [columnAfter, List.foldl_append]
      exact columnAfter_of_line hLine _
    rw [List.count_eq_zero_of_not_mem hLine, hColumn]
    exact .inr ⟨by simp, by omega⟩

namespace Covers

variable {last : Option TokenKind} {passed source : List Char} {ts : List Token}

/-- Every token stands at the end of some part of the text. -/
theorem place (h : Covers last passed source ts) {t : Token} (ht : t ∈ ts) :
    ∃ front back, source = front ++ back ∧ t.line = 1 + (passed ++ front).count '\n' ∧
      t.column = columnAfter (passed ++ front) 1 := by
  induction h with
  | done => cases ht
  | @token last passed gap span more first ts spacing line column spelled rest ih =>
    rcases List.mem_cons.mp ht with rfl | ht
    · exact ⟨gap, span ++ more, rfl, line, column⟩
    · obtain ⟨front, back, hSource, hLine, hColumn⟩ := ih ht
      refine ⟨gap ++ span ++ front, back, ?_, ?_, ?_⟩
      · rw [hSource]
        simp
      · rw [hLine]
        simp
      · rw [hColumn]
        simp

theorem sorted (h : Covers last passed source ts) : ts.Pairwise Token.NotBehind := by
  induction h with
  | done => exact .nil
  | @token last passed gap span more first ts spacing line column spelled rest ih =>
    refine .cons (fun t ht => ?_) ih
    obtain ⟨front, back, -, hLine, hColumn⟩ := rest.place ht
    have hPlace := place_le_append (passed ++ gap) (span ++ front)
    rw [← List.append_assoc] at hPlace
    rw [Token.NotBehind, line, column, hLine, hColumn]
    exact hPlace

end Covers

end Directive
