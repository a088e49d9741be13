import Directive.Fault
import Directive.Text.Blank
import Directive.Token.Basic
import Directive.Upshot

/-!
# From text to tokens

A script is read line by line; a block string may carry a line over several lines of the text.

* `Layout.enter`: the off-side rule, with a stack of indentation widths;
* `argument`: the tokens of one argument and how many characters it takes;
* `scanArguments`: the arguments of a line, in rounds that each take one of them; a round that takes
  no character is followed by another one like it, for ever;
* `scanLine`, `scanLines`: a line, and all of them;
* `Token.ofText`: the tokens of a script, or the first fault, if scanning it ends.

Blank lines and lines that open with `#` have no tokens and no part in the layout.
-/

namespace Directive

/-- What is left of a text, and the position of its first character. -/
structure Cursor where
  rest : List Char
  line : Int
  column : Int

namespace Cursor

def start (text : List Char) : Cursor := ⟨text, 1, 1⟩

def next (c : Cursor) : Cursor :=
  match c.rest with
  | [] => c
  | '\n' :: cs => ⟨cs, c.line + 1, 1⟩
  | _ :: cs => ⟨cs, c.line, c.column + 1⟩

def advance (c : Cursor) : Nat → Cursor
  | 0 => c
  | n + 1 => c.next.advance n

def skip (p : Char → Bool) (c : Cursor) : Cursor := c.advance (c.rest.takeWhile p).length

theorem rest_next (c : Cursor) : c.next.rest = c.rest.drop 1 := by
  unfold next
  split <;> simp_all

@[simp]
theorem rest_advance (c : Cursor) (n : Nat) : (c.advance n).rest = c.rest.drop n := by
  induction n generalizing c with
  | zero => simp [advance]
  | succ n ih => rw [advance, ih, rest_next, List.drop_drop, Nat.add_comm]

def atLineEnd (c : Cursor) : Bool :=
  match c.rest with
  | [] => true
  | ch :: _ => ch == '\n'

/-- A token of some kind that starts here. -/
def token (c : Cursor) (kind : TokenKind) (text : List Char) : Token :=
  ⟨kind, String.ofList text, c.line, c.column⟩

end Cursor

/-- A problem and the position that it is reported at. -/
structure LexFailure where
  problem : LexProblem
  line : Int
  column : Int
deriving DecidableEq

abbrev Scan (α : Type) := Except LexFailure α

/-- A scan in rounds, which need not end. -/
abbrev Scanning (α : Type) := Upshot LexFailure α

def Cursor.fail {α : Type} (c : Cursor) (p : LexProblem) : Scan α := .error ⟨p, c.line, c.column⟩

def isIndentChar (c : Char) : Bool := c == ' ' || c == '\t'

/-- The widths of the open blocks, innermost first, and the character that scripts indent with. -/
structure Layout where
  widths : List Nat := []
  char : Option Char := none
deriving DecidableEq

namespace Layout

def width (l : Layout) : Nat := l.widths.headD 0

/-- The open blocks that a line of some width leaves. -/
def left (l : Layout) (width : Nat) : List Nat := l.widths.takeWhile (width < ·)

/-- The layout that an indentation uses, or what is wrong with its characters. -/
def indentWith (l : Layout) (run : List Char) : Except LexProblem Layout :=
  match run with
  | [] => .ok l
  | c :: _ =>
    if run.contains ' ' && run.contains '\t' then .error .mixedIndentation
    else match l.char with
      | none => .ok { l with char := some c }
      | some d => if c = d then .ok l else .error .changedIndentation

/-- The layout within a line with indentation `run`, and the tokens for the blocks that it opens
or leaves. They stand at the start of the line. -/
def enter (l : Layout) (run : List Char) (line : Int) : Scan (Layout × List Token) :=
  match l.indentWith run with
  | .error p => .error ⟨p, line, 1⟩
  | .ok l =>
    let width := run.length
    if l.width < width then
      .ok ({ l with widths := width :: l.widths }, [⟨.indent, String.ofList run, line, 1⟩])
    else
      let left := l.left width
      let inner := { l with widths := l.widths.drop left.length }
      if inner.width = width then .ok (inner, left.map fun _ => ⟨.dedent, "", line, 1⟩)
      else .error ⟨.unmatchedDedent, line, 1⟩

end Layout

def isNameStart (c : Char) : Bool := c.isAlpha || c == '_'

def isNameChar (c : Char) : Bool := c.isAlphanum || c == '_'

def isKeyChar (c : Char) : Bool := isNameChar c || c == '-'

/-- The name at the start of a text, with later characters in some class. -/
def nameAt? (p : Char → Bool) : List Char → Option (List Char)
  | [] => none
  | c :: cs => if isNameStart c then some (c :: cs.takeWhile p) else none

/-- The tokens of the header at the cursor, and how many characters they take. A word that is
followed neither by a colon nor by a gap is no header. -/
def header (c : Cursor) : List Token × Nat :=
  match nameAt? isNameChar c.rest with
  | none => ([], 0)
  | some name =>
    let colon := c.advance name.length
    match colon.rest with
    | ':' :: _ => ([c.token .commandName name, colon.token .colon [':']], name.length + 1)
    | [] => ([c.token .commandName name], name.length)
    | ch :: _ =>
      if isIndentChar ch || ch == '\n' then ([c.token .commandName name], name.length) else ([], 0)

/-- The text up to the first three quotes in a row. -/
def blockBody? : List Char → Option (List Char)
  | [] => none
  | '"' :: '"' :: '"' :: _ => some []
  | c :: cs => (blockBody? cs).map (c :: ·)

/-- What a backslash and a character stand for. -/
def unescape : Char → List Char
  | '"' => ['"']
  | '\\' => ['\\']
  | 'n' => ['\n']
  | 't' => ['\t']
  | c => ['\\', c]

/-- The text up to a closing quote on the same line, and the number of characters it takes with
the quote. -/
def quotedBody? : List Char → Option (List Char × Nat)
  | [] => none
  | '"' :: _ => some ([], 1)
  | '\n' :: _ => none
  | '\\' :: [] => none
  | '\\' :: '\n' :: _ => none
  | '\\' :: c :: cs => (quotedBody? cs).map fun (text, n) => (unescape c ++ text, n + 2)
  | c :: cs => (quotedBody? cs).map fun (text, n) => (c :: text, n + 1)

/-- The rest of the line up to a blank that stands directly before `--`. -/
def referenceSpan : List Char → List Char
  | [] => []
  | c :: cs =>
    if c == '\n' || (Text.isBlank c && ['-', '-'].isPrefixOf cs) then []
    else c :: referenceSpan cs

def isValueChar (c : Char) : Bool := !isIndentChar c && c != '\n'

/-- The value that starts at the cursor, and how many characters it takes. -/
def modifierValue (c : Cursor) : Scan (Token × Nat) :=
  match c.rest with
  | '"' :: cs =>
    match quotedBody? cs with
    | some (text, n) => .ok (c.token .modifierValue text, n + 1)
    | none => c.fail .openString
  | cs =>
    let text := cs.takeWhile isValueChar
    .ok (c.token .modifierValue text, text.length)

/-- The tokens of the modifier at the cursor, and how many characters they take. -/
def modifier (c : Cursor) : Scan (List Token × Nat) :=
  let atKey := c.advance 2
  match nameAt? isKeyChar atKey.rest with
  | none => atKey.fail .noModifierKey
  | some key =>
    let keyToken := c.token .modifierKey key
    let afterKey := atKey.advance key.length
    match afterKey.rest with
    | '=' :: _ => do
      let (value, n) ← modifierValue afterKey.next
      return ([keyToken, value], key.length + 3 + n)
    | [] => .ok ([keyToken], key.length + 2)
    | ch :: _ =>
      if isValueChar ch then afterKey.fail (.noEqualsSign (String.ofList key))
      else .ok ([keyToken], key.length + 2)

/-- The tokens of the argument at the cursor, and how many characters they take. -/
def argument (c : Cursor) : Scan (List Token × Nat) :=
  match c.rest with
  | '"' :: '"' :: '"' :: cs =>
    match blockBody? cs with
    | some text => .ok ([c.token .blockString text], text.length + 6)
    | none => c.fail .openBlock
  | '"' :: cs =>
    match quotedBody? cs with
    | some (text, n) => .ok ([c.token .quotedString text], n + 1)
    | none => c.fail .openString
  | '-' :: '-' :: _ => modifier c
  | cs =>
    let span := referenceSpan cs
    .ok ([c.token .bareReference (Text.trimEndChars span)], span.length)

/-- The tokens up to the end of the line, and the cursor there. -/
def scanArguments (c : Cursor) : Scanning (List Token × Cursor) :=
  let here := c.skip isIndentChar
  if here.atLineEnd then .ok ([], here)
  else match argument here with
    | .error e => .error e
    | .ok (tokens, n) =>
      if 0 < n then
        match scanArguments (here.advance n) with
        | .error e => .error e
        | .ok (more, last) => .ok (tokens ++ more, last)
        | .endless => .endless
      else .endless
termination_by c.rest.length
decreasing_by
  rename_i hEnd hPos
  have hne : (c.skip isIndentChar).rest ≠ [] := by
    intro h
    simp [here, Cursor.atLineEnd, h] at hEnd
  have hlt : 0 < (c.skip isIndentChar).rest.length := List.length_pos_iff.2 hne
  have hle : (c.skip isIndentChar).rest.length ≤ c.rest.length := by
    simp [Cursor.skip]
  simp only [Cursor.rest_advance, List.length_drop]
  omega

theorem scanArguments_le {c last : Cursor} {tokens : List Token}
    (h : scanArguments c = .ok (tokens, last)) : last.rest.length ≤ c.rest.length := by
  fun_induction scanArguments c generalizing tokens last with
  | case1 c here =>
    cases h
    simp [here, Cursor.skip]
  | case2 => cases h
  | case3 => cases h
  | case4 c here _ _ _ _ _ _ _ hmore =>
    rename_i ih
    cases h
    have := ih hmore
    simp only [Cursor.rest_advance, List.length_drop, here, Cursor.skip] at this
    omega
  | case5 => cases h
  | case6 => cases h

/-- The tokens of the line at the cursor, the layout within it, and the cursor at its end. -/
def scanLine (l : Layout) (c : Cursor) : Scanning (List Token × Layout × Cursor) :=
  let run := c.rest.takeWhile isIndentChar
  let here := c.advance run.length
  if here.atLineEnd || here.rest.head? == some '#' then .ok ([], l, here.skip (· != '\n'))
  else match l.enter run here.line with
    | .error e => .error e
    | .ok (inner, layoutTokens) =>
      let (headerTokens, n) := header here
      match scanArguments (here.advance n) with
      | .error e => .error e
      | .ok (arguments, last) =>
        .ok (layoutTokens ++ headerTokens ++ arguments ++ [last.token .newline ['\n']], inner, last)
      | .endless => .endless

theorem scanLine_le {l inner : Layout} {c last : Cursor} {tokens : List Token}
    (h : scanLine l c = .ok (tokens, inner, last)) : last.rest.length ≤ c.rest.length := by
  unfold scanLine at h
  simp only at h
  split at h
  · cases h
    simp only [Cursor.skip, Cursor.rest_advance, List.length_drop]
    omega
  · split at h
    · cases h
    · split at h
      · cases h
      · rename_i harg
        cases h
        have := scanArguments_le harg
        simp only [Cursor.rest_advance, List.length_drop] at this
        omega
      · cases h

/-- The tokens after the last line: what leaves the open blocks, and the end of the input. -/
def finish (l : Layout) (c : Cursor) : List Token :=
  l.widths.map (fun _ => c.token .dedent []) ++ [c.token .eof []]

def scanLines (l : Layout) (c : Cursor) : Scanning (List Token) :=
  if c.rest = [] then .ok (finish l c)
  else match _ : scanLine l c with
    | .error e => .error e
    | .ok (tokens, inner, last) =>
      if last.rest = [] then .ok (tokens ++ finish inner last)
      else match scanLines inner last.next with
        | .error e => .error e
        | .ok more => .ok (tokens ++ more)
        | .endless => .endless
    | .endless => .endless
termination_by c.rest.length
decreasing_by
  rename_i hLine hLast
  have := scanLine_le hLine
  have : 0 < last.rest.length := List.length_pos_iff.2 hLast
  simp only [Cursor.rest_next, List.length_drop]
  omega

/-- The line of a text with a given number, counted from one. -/
def lineAt? (lines : List String) (line : Int) : Option String :=
  if 0 < line then lines[(line - 1).toNat]? else none

def LexFailure.toFault (e : LexFailure) (lines : List String) : Fault :=
  { trouble := .lex e.problem
    place := { line := some e.line, column := some e.column, sourceLine := lineAt? lines e.line } }

/-- The tokens of a script. -/
def Token.ofText (text : String) : Upshot Fault (List Token) :=
  (scanLines {} (.start (Text.joinLineEnds text.toList))).mapError (·.toFault (Text.lines text))

end Directive
