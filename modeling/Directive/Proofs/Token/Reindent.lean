import Mathlib.Order.Monotone.Basic
import Mathlib.Data.Set.Function
import Directive.Proofs.Token.CodeLine

/-!
# Other indentations

How far a line is set in does not matter by itself, only whether it is further than other lines.

* `textLines`: the lines of a text, those of code with all that their block strings take;
* `indents_codeLines`: the lines of code are those that the lexer reads;
* `reindent`: the text with its lines of code set in otherwise;
* `Layout.Rescales`: the layouts of the two texts, and `Layout.Rescales.enter` for one line;
* `scanLines_reindent`: the tokens of the two texts, or their faults.
-/

namespace Directive

/-! ### The lines of a text -/

/-- A line of a text: what it is set in with, what follows, and whether it is one of code. -/
structure TextLine where
  indent : List Char
  body : List Char
  isCode : Bool

namespace TextLine

def width (line : TextLine) : Nat := line.indent.length

def written (line : TextLine) : List Char := line.indent ++ line.body

/-- A line of code that is set in by so many of one character for its width. Other lines stay as they
are. -/
def reindent (f : Nat → Nat) (ch : Char) (line : TextLine) : TextLine :=
  if line.isCode then { line with indent := List.replicate (f line.width) ch } else line

/-- A line of code has one of some widths and is set in with one character only. -/
def Regular (ws : Set Nat) (a : Char) (line : TextLine) : Prop :=
  line.isCode = true → line.width ∈ ws ∧ ∀ c ∈ line.indent, c = a

end TextLine

/-- What is left of a text behind its first line. -/
def behindLine (text : List Char) : List Char :=
  let here := (Cursor.start text).skip isIndentChar
  if (Cursor.start text).isIdle then here.rest.dropWhile (· != '\n')
  else behindCode (here.advance (header here).2).rest

/-- The first line of a text, up to what is left behind it. -/
def firstLine (text : List Char) : TextLine where
  indent := text.takeWhile isIndentChar
  body := (text.dropWhile isIndentChar).take
    ((text.dropWhile isIndentChar).length - (behindLine text).length)
  isCode := !(Cursor.start text).isIdle

theorem behindLine_suffix (text : List Char) :
    behindLine text <:+ text.dropWhile isIndentChar := by
  rw [behindLine, Cursor.rest_advance, Cursor.rest_skip]
  split
  · exact List.dropWhile_suffix _
  · exact (behindCode_suffix _).trans (List.drop_suffix _ _)

theorem behindLine_nil : behindLine [] = [] := List.suffix_nil.mp (behindLine_suffix [])

theorem endsLine_behindLine (text : List Char) : EndsLine (behindLine text) := by
  rw [behindLine]
  split
  · exact endsLine_dropWhile _
  · exact endsLine_behindCode _

theorem body_firstLine (text : List Char) :
    (firstLine text).body ++ behindLine text = text.dropWhile isIndentChar :=
  List.suffix_iff_eq_append.mp (behindLine_suffix text)

theorem written_firstLine (text : List Char) :
    (firstLine text).written ++ behindLine text = text := by
  rw [TextLine.written, List.append_assoc, body_firstLine]
  exact List.takeWhile_append_dropWhile

/-- The lines of a text. -/
def textLines (text : List Char) : List TextLine :=
  match _ : behindLine text with
  | [] => [firstLine text]
  | _ :: more => firstLine text :: textLines more
termination_by text.length
decreasing_by
  rename_i hMore
  have hLe := ((behindLine_suffix text).trans (List.dropWhile_suffix _)).length_le
  rw [hMore, List.length_cons] at hLe
  omega

/-- Lines, one below the other. -/
def joinLines (lines : List TextLine) : List Char :=
  ['\n'].intercalate (lines.map TextLine.written)

/-- The text with its lines of code set in by so many of one character for their widths. -/
def reindent (f : Nat → Nat) (ch : Char) (text : List Char) : List Char :=
  joinLines ((textLines text).map (TextLine.reindent f ch))

theorem textLines_of_nil {text : List Char} (h : behindLine text = []) :
    textLines text = [firstLine text] := by
  rw [textLines.eq_def]
  split
  · rfl
  · rename_i hMore
    rw [h] at hMore
    cases hMore

theorem textLines_of_cons {text more : List Char} {c : Char} (h : behindLine text = c :: more) :
    textLines text = firstLine text :: textLines more := by
  rw [textLines.eq_def]
  split
  · rename_i hNone
    rw [h] at hNone
    cases hNone
  · rename_i hMore
    rw [h] at hMore
    cases hMore
    rfl

/-- A text has one line, or one more than what stands behind the end of its first line. -/
theorem textLines_cases (text : List Char) :
    behindLine text = [] ∧ textLines text = [firstLine text] ∨
      ∃ more, behindLine text = '\n' :: more ∧ textLines text = firstLine text :: textLines more := by
  obtain hNone | ⟨more, hMore⟩ := (endsLine_behindLine text).cases
  · exact .inl ⟨hNone, textLines_of_nil hNone⟩
  · exact .inr ⟨more, hMore, textLines_of_cons hMore⟩

theorem textLines_ne_nil (text : List Char) : textLines text ≠ [] := by
  obtain ⟨-, h⟩ | ⟨more, -, h⟩ := textLines_cases text <;> simp [h]

theorem firstLine_mem (text : List Char) : firstLine text ∈ textLines text := by
  obtain ⟨-, h⟩ | ⟨more, -, h⟩ := textLines_cases text <;> simp [h]

theorem joinLines_singleton (line : TextLine) : joinLines [line] = line.written :=
  List.intercalate_singleton

theorem joinLines_cons (line : TextLine) {lines : List TextLine} (h : lines ≠ []) :
    joinLines (line :: lines) = line.written ++ '\n' :: joinLines lines := by
  rw [joinLines, List.map_cons, List.intercalate_cons_of_ne_nil (by simpa using h),
    List.append_assoc]
  rfl

/-- The lines of a text, one below the other, are the text. -/
theorem joinLines_textLines (text : List Char) : joinLines (textLines text) = text := by
  induction hLength : text.length using Nat.strongRecOn generalizing text with
  | ind n ih =>
    have hWhole := written_firstLine text
    obtain ⟨hNone, hLines⟩ | ⟨more, hMore, hLines⟩ := textLines_cases text
    · rw [hNone, List.append_nil] at hWhole
      rw [hLines, joinLines_singleton, hWhole]
    · rw [hMore] at hWhole
      have hShorter : more.length < n := by
        rw [← hLength, ← hWhole, List.length_append, List.length_cons]
        omega
      rw [hLines, joinLines_cons _ (textLines_ne_nil more), ih _ hShorter more rfl, hWhole]

/-- The first line is set in otherwise, and what stands behind its end. -/
theorem reindent_cases (f : Nat → Nat) (ch : Char) (text : List Char) : ∃ tail,
    reindent f ch text = ((firstLine text).reindent f ch).written ++ tail ∧
      (behindLine text = [] ∧ tail = [] ∨
        ∃ more, behindLine text = '\n' :: more ∧ tail = '\n' :: reindent f ch more ∧
          textLines text = firstLine text :: textLines more) := by
  obtain ⟨hNone, hLines⟩ | ⟨more, hMore, hLines⟩ := textLines_cases text
  · refine ⟨[], ?_, .inl ⟨hNone, rfl⟩⟩
    rw [reindent, hLines, List.append_nil]
    exact joinLines_singleton _
  · refine ⟨'\n' :: reindent f ch more, ?_, .inr ⟨more, hMore, rfl, hLines⟩⟩
    rw [reindent, hLines, List.map_cons, joinLines_cons _ (by simpa using textLines_ne_nil more)]
    rfl

/-! ### Layouts -/

/-- A layout, and the one that it is with lines of code set in otherwise. Its blocks have widths that
are in a given set, where the change keeps the order. -/
structure Layout.Rescales (f : Nat → Nat) (ws : Set Nat) (a ch : Char) (l l' : Layout) : Prop where
  widths : l'.widths = l.widths.map f
  mem : ∀ w ∈ l.widths, w ∈ ws
  uses : l.Uses a
  uses' : l'.Uses ch

namespace Layout.Rescales

variable {f : Nat → Nat} {ws : Set Nat} {a ch : Char} {l l' : Layout} {n : Nat}

theorem width (h : l.Rescales f ws a ch l') (zero : f 0 = 0) : l'.width = f l.width := by
  rw [Layout.width, Layout.width, h.widths]
  cases l.widths with
  | nil => exact zero.symm
  | cons w widths => rfl

theorem width_mem (h : l.Rescales f ws a ch l') (outer : 0 ∈ ws) : l.width ∈ ws := by
  have hMem := h.mem
  rw [Layout.width]
  cases hWidths : l.widths with
  | nil => exact outer
  | cons w widths => exact hMem w (hWidths ▸ List.mem_cons_self)

theorem left (h : l.Rescales f ws a ch l') (mono : StrictMonoOn f ws) (hn : n ∈ ws) :
    l'.left (f n) = (l.left n).map f := by
  have hMem := h.mem
  rw [Layout.left, Layout.left, h.widths]
  generalize l.widths = widths at hMem
  induction widths with
  | nil => rfl
  | cons w widths ih =>
    obtain ⟨hw, hWidths⟩ := List.forall_mem_cons.mp hMem
    have hSame : decide (f n < f w) = decide (n < w) := decide_eq_decide.mpr (mono.lt_iff_lt hn hw)
    rw [List.map_cons, List.takeWhile_cons, List.takeWhile_cons, hSame, ih hWidths]
    split <;> rfl

/-- A line of code opens a block in both layouts, or leaves as many in both, or it is wrong in both. -/
theorem enter (h : l.Rescales f ws a ch l') (mono : StrictMonoOn f ws) (zero : f 0 = 0)
    (outer : 0 ∈ ws) (hn : n ∈ ws) (line : Int) :
    (∃ e, l.enter (List.replicate n a) line = .error e ∧
      l'.enter (List.replicate (f n) ch) line = .error e) ∨
    ∃ inner inner' lead lead', l.enter (List.replicate n a) line = .ok (inner, lead) ∧
      l'.enter (List.replicate (f n) ch) line = .ok (inner', lead') ∧
      inner.Rescales f ws a ch inner' ∧ lead'.map Token.bare = lead.map Token.bare := by
  obtain ⟨used, hUsed, hWidths, hUses⟩ := Layout.indentWith_replicate h.uses n
  obtain ⟨used', hUsed', hWidths', hUses'⟩ := Layout.indentWith_replicate h.uses' (f n)
  have hUsing : used.Rescales f ws a ch used' :=
    ⟨by rw [hWidths', hWidths, h.widths], by rw [hWidths]; exact h.mem, hUses, hUses'⟩
  have hLeft := hUsing.left mono hn
  have hWider' : used'.width < f n ↔ used.width < n := by
    rw [hUsing.width zero, mono.lt_iff_lt (hUsing.width_mem outer) hn]
  unfold Layout.enter
  rw [hUsed, hUsed']
  dsimp only
  rw [List.length_replicate, List.length_replicate]
  by_cases hWider : used.width < n
  · right
    refine ⟨_, _, _, _, if_pos hWider, if_pos (hWider'.mpr hWider), ⟨?_, ?_, hUses, hUses'⟩, rfl⟩
    · rw [List.map_cons, hUsing.widths]
    · exact List.forall_mem_cons.mpr ⟨hn, hUsing.mem⟩
  · have hInner : Layout.Rescales f ws a ch
        { used with widths := used.widths.drop (used.left n).length }
        { used' with widths := used'.widths.drop (used'.left (f n)).length } := by
      refine ⟨?_, fun w hw => hUsing.mem w (List.mem_of_mem_drop hw), hUses, hUses'⟩
      rw [hLeft, List.length_map, hUsing.widths, List.map_drop]
    have hInnerWidth := hInner.width zero
    by_cases hOpen : ({ used with widths := used.widths.drop (used.left n).length } : Layout).width = n
    · right
      refine ⟨_, _, _, _, (if_neg hWider).trans (if_pos hOpen),
        (if_neg (mt hWider'.mp hWider)).trans (if_pos (hInnerWidth.trans (congrArg f hOpen))),
        hInner, ?_⟩
      rw [hLeft, List.map_map, List.map_map, List.map_map]
      rfl
    · left
      refine ⟨⟨.unmatchedDedent, line, 1⟩, (if_neg hWider).trans (if_neg hOpen),
        (if_neg (mt hWider'.mp hWider)).trans (if_neg fun hOpen' => ?_)⟩
      exact hOpen (mono.injOn (hInner.width_mem outer) hn (hInnerWidth.symm.trans hOpen'))

end Layout.Rescales

/-! ### Lines -/

theorem isIdle_start (c : Cursor) : (Cursor.start c.rest).isIdle = c.isIdle := by
  rw [Cursor.isIdle, Cursor.isIdle, Cursor.atLineEnd, Cursor.atLineEnd, Cursor.rest_skip,
    Cursor.rest_skip]
  rfl

theorem behindLine_of_idle {c : Cursor} (h : c.isIdle = true) :
    behindLine c.rest = ((c.skip isIndentChar).skip (· != '\n')).rest := by
  rw [behindLine, isIdle_start, if_pos h]
  simp only [Cursor.rest_skip]
  rfl

/-- What is left behind a line of code does not depend on where the cursor stands. -/
theorem behindLine_of_code {c : Cursor} (h : ¬ c.isIdle = true) : behindLine c.rest =
    behindCode ((c.skip isIndentChar).advance (header (c.skip isIndentChar)).2).rest := by
  have hRest : ((Cursor.start c.rest).skip isIndentChar).rest = (c.skip isIndentChar).rest := by
    rw [Cursor.rest_skip, Cursor.rest_skip]
    rfl
  have hHeader (here : Cursor) : (header here).2 = (header (.start here.rest)).2 := by
    obtain ⟨place, hSteady, hPlace⟩ := here.eq_relocate_start
    conv_lhs => rw [hPlace, header_relocate hSteady]
  rw [behindLine, isIdle_start, if_neg h, Cursor.rest_advance, Cursor.rest_advance, hRest, hHeader,
    hRest, ← hHeader]

section Line

variable {f : Nat → Nat} {ws : Set Nat} {a ch : Char} {l l' : Layout} {c c' : Cursor}
  {tail : List Char}

/-- Code begins with a character that is neither a blank nor the mark of a comment. -/
theorem body_of_code (code : ¬ c.isIdle = true) : ∃ x xs, (firstLine c.rest).body = x :: xs ∧
    isIndentChar x = false ∧ x ≠ '\n' ∧ x ≠ '#' := by
  have hRest : (c.skip isIndentChar).rest = (firstLine c.rest).body ++ behindLine c.rest := by
    rw [Cursor.rest_skip, body_firstLine]
  have hHead := List.head?_dropWhile_not isIndentChar c.rest
  rw [← Cursor.rest_skip, hRest] at hHead
  rw [Cursor.isIdle, Cursor.atLineEnd, hRest] at code
  rcases hBody : (firstLine c.rest).body with _ | ⟨x, xs⟩
  · rw [hBody] at code
    obtain hNone | ⟨more, hMore⟩ := (endsLine_behindLine c.rest).cases
    · simp [hNone] at code
    · simp [hMore] at code
  · rw [hBody] at hHead code
    have hMarks : ¬ x = '\n' ∧ ¬ x = '#' := by simpa using code
    exact ⟨x, xs, rfl, by simpa using hHead, hMarks⟩

/-- A line of code that is set in otherwise in front of another text: its code is the same, somewhere
else on the line. -/
theorem skip_reindent (blank : isIndentChar ch = true) (code : ¬ c.isIdle = true)
    (rest : c'.rest = List.replicate (f (firstLine c.rest).width) ch ++ ((firstLine c.rest).body ++
      tail)) (line : c'.line = c.line) :
    ¬ c'.isIdle = true ∧
      c'.rest.takeWhile isIndentChar = List.replicate (f (firstLine c.rest).width) ch ∧
      ∃ (b : Cursor) (k : Int), c.skip isIndentChar = b.onto (behindLine c.rest) ∧
        c'.skip isIndentChar = (b.onto tail).relocate (alongBy b.line k) := by
  obtain ⟨x, xs, hBody, hBlank, hEnd, hMark⟩ := body_of_code code
  have hLine : (c.skip isIndentChar).line = c.line := (c.at_skip (by decide)).1
  have hRun : ∀ d ∈ List.replicate (f (firstLine c.rest).width) ch, isIndentChar d = true := by
    intro d hd
    rwa [List.eq_of_mem_replicate hd]
  have hOneLine : '\n' ∉ List.replicate (f (firstLine c.rest).width) ch := by
    intro hIn
    exact absurd (hRun _ hIn) (by decide)
  have hSkip : c'.skip isIndentChar = ⟨(firstLine c.rest).body ++ tail, c'.line, c'.column +
      (List.replicate (f (firstLine c.rest).width) ch).length⟩ := by
    rw [← Cursor.skip_append hRun (by simpa [hBody] using hBlank) hOneLine, ← rest]
  refine ⟨?_, ?_, { c.skip isIndentChar with rest := (firstLine c.rest).body },
    (c'.skip isIndentChar).column - (c.skip isIndentChar).column, ?_, ?_⟩
  · rw [Cursor.isIdle, Cursor.atLineEnd, hSkip, hBody]
    simp [hEnd, hMark]
  · rw [rest, List.takeWhile_append_of_pos hRun, hBody]
    simp [hBlank]
  · rw [Cursor.onto, body_firstLine, ← Cursor.rest_skip]
  · rw [hSkip, Cursor.onto, Cursor.relocate, alongBy, if_pos rfl, line, hLine]
    congr 1
    dsimp only
    omega

/-- The tokens of the code are the same but for their columns, and so is what is wrong with it. -/
theorem scanCode_reindent {b : Cursor} (code : ¬ c.isIdle = true)
    (here : c.skip isIndentChar = b.onto (behindLine c.rest)) (k : Int) (ends : EndsLine tail)
    (whole : behindLine c.rest = [] → tail = []) :
    (scanCode (c.skip isIndentChar) = .endless ∧
      scanCode ((b.onto tail).relocate (alongBy b.line k)) = .endless) ∨
    (∃ e e', scanCode (c.skip isIndentChar) = .error e ∧
      scanCode ((b.onto tail).relocate (alongBy b.line k)) = .error e' ∧ e'.bare = e.bare) ∨
    ∃ ts ts' last last', scanCode (c.skip isIndentChar) = .ok (ts, last) ∧
      scanCode ((b.onto tail).relocate (alongBy b.line k)) = .ok (ts', last') ∧
      ts'.map Token.bare = ts.map Token.bare ∧ last.rest = behindLine c.rest ∧ last'.rest = tail ∧
      last'.line = last.line := by
  have hBehind := behindLine_of_code code
  have hMoved := scanCode_relocate (c := b.onto tail) (steady_alongBy b.line k)
  rw [here] at hBehind ⊢
  rw [scanCode_onto hBehind.symm ends whole] at hMoved
  rcases hRead : scanCode (b.onto (behindLine c.rest)) with e | ⟨ts, last⟩ | _
  · rw [hRead] at hMoved
    exact .inr (.inl ⟨e, _, rfl, hMoved, rfl⟩)
  case endless =>
    rw [hRead] at hMoved
    exact .inl ⟨rfl, hMoved⟩
  · rw [hRead] at hMoved
    refine .inr (.inr ⟨ts, _, last, _, rfl, hMoved, ?_, ?_, rfl, rfl⟩)
    · rw [List.map_map]
      rfl
    · rw [← behindCode_of_scanCode hRead, ← hBehind]

/-- A line in two layouts of which one is with other widths. The line itself is set in otherwise, too,
if it is one of code. -/
theorem scanLine_reindent (h : l.Rescales f ws a ch l') (mono : StrictMonoOn f ws) (zero : f 0 = 0)
    (outer : 0 ∈ ws) (blank : isIndentChar ch = true) (first : (firstLine c.rest).Regular ws a)
    (rest : c'.rest = ((firstLine c.rest).reindent f ch).written ++ tail) (line : c'.line = c.line)
    (column : c'.column = c.column) (ends : EndsLine tail)
    (whole : behindLine c.rest = [] → tail = []) :
    (scanLine l c = .endless ∧ scanLine l' c' = .endless) ∨
    (∃ e e', scanLine l c = .error e ∧ scanLine l' c' = .error e' ∧ e'.bare = e.bare) ∨
    ∃ ts ts' inner inner' last last', scanLine l c = .ok (ts, inner, last) ∧
      scanLine l' c' = .ok (ts', inner', last') ∧ ts'.map Token.bare = ts.map Token.bare ∧
      inner.Rescales f ws a ch inner' ∧ last.rest = behindLine c.rest ∧ last'.rest = tail ∧
      last'.line = last.line := by
  by_cases hIdle : c.isIdle = true
  · right; right
    have hPlain : (firstLine c.rest).isCode = false := by simp [firstLine, isIdle_start, hIdle]
    rw [TextLine.reindent, if_neg (by simp [hPlain])] at rest
    have hHere : c = ({ c with rest := (firstLine c.rest).written } : Cursor).onto
        (behindLine c.rest) := by rw [Cursor.onto, written_firstLine]
    have hHere' : c' = ({ c with rest := (firstLine c.rest).written } : Cursor).onto tail := by
      rw [Cursor.onto, ← rest, ← line, ← column]
    have hLine (l : Layout) := scanLine_of_idle l hIdle
    have hLast := behindLine_of_idle hIdle
    have hOther := scanLine_onto (by rw [← hHere]; exact hLine l') hLast.symm ends whole
    rw [← hHere'] at hOther
    exact ⟨_, _, _, _, _, _, hLine l, hOther, rfl, h, hLast.symm, rfl, rfl⟩
  · have hCode : (firstLine c.rest).isCode = true := by simp [firstLine, isIdle_start, hIdle]
    rw [TextLine.reindent, if_pos hCode, TextLine.written, List.append_assoc] at rest
    obtain ⟨hIdle', hRun', b, k, hHere, hHere'⟩ := skip_reindent blank hIdle rest line
    have hRun : c.rest.takeWhile isIndentChar = List.replicate (firstLine c.rest).width a :=
      List.eq_replicate_iff.mpr ⟨rfl, (first hCode).2⟩
    have hLine : ((b.onto tail).relocate (alongBy b.line k)).line = (c.skip isIndentChar).line := by
      rw [hHere]
      rfl
    rw [scanLine_of_entered l hIdle rfl, scanLine_of_entered l' hIdle' hHere', hRun, hRun', hLine]
    obtain ⟨e, hWrong, hWrong'⟩ | ⟨inner, inner', lead, lead', hEnter, hEnter', hInner, hLead⟩ :=
      h.enter mono zero outer (first hCode).1 (c.skip isIndentChar).line
    · rw [hWrong, hWrong']
      exact .inr (.inl ⟨e, e, rfl, rfl, rfl⟩)
    · rw [hEnter, hEnter']
      obtain ⟨hStays, hStays'⟩ | ⟨e, e', hFails, hFails', hSame⟩ |
          ⟨ts, ts', last, last', hRead, hRead', hSame, hLast, hLast', hEnd⟩ :=
        scanCode_reindent hIdle hHere k ends whole
      · rw [hStays, hStays']
        exact .inl ⟨rfl, rfl⟩
      · rw [hFails, hFails']
        exact .inr (.inl ⟨e, e', rfl, rfl, hSame⟩)
      · rw [hRead, hRead']
        refine .inr (.inr ⟨_, _, _, _, _, _, rfl, rfl, ?_, hInner, hLast, hLast', hEnd⟩)
        rw [List.map_append, List.map_append, hLead, hSame]

end Line

/-! ### Texts -/

theorem readLine_firstLine {c last : Cursor} {line : Option CodeLine}
    (h : readLine c = .ok (line, last)) : last.rest = behindLine c.rest ∧
      line.toList.map CodeLine.indent =
        ([firstLine c.rest].filter TextLine.isCode).map TextLine.indent := by
  unfold readLine at h
  dsimp only at h
  split at h
  · rename_i hIdle
    cases h
    refine ⟨(behindLine_of_idle hIdle).symm, ?_⟩
    simp [firstLine, isIdle_start, hIdle]
  · rename_i hIdle
    split at h
    · cases h
    · rename_i arguments last' hArguments
      cases h
      refine ⟨?_, ?_⟩
      · rw [behindLine_of_code hIdle]
        exact (behindCode_of_scanArguments hArguments).symm
      · simp [firstLine, isIdle_start, hIdle]
    · cases h

/-- The lines of code of a text are those that the lexer reads as such. -/
theorem indents_codeLines {c : Cursor} {lines : List CodeLine} (h : codeLines c = .ok lines) :
    lines.map CodeLine.indent =
      ((textLines c.rest).filter TextLine.isCode).map TextLine.indent := by
  have hNone {c : Cursor} (ended : c.rest = []) :
      ((textLines c.rest).filter TextLine.isCode).map TextLine.indent = [] := by
    rw [ended, textLines_of_nil behindLine_nil]
    rfl
  fun_induction codeLines c generalizing lines with
  | case1 c ended =>
    cases h
    exact (hNone ended).symm
  | case2 => cases h
  | case3 c code line last hLine ih =>
    obtain ⟨hRest, hFirst⟩ := readLine_firstLine hLine
    rcases hMore : codeLines last.next with e | more | _
    · rw [hMore] at h
      cases h
    case endless =>
      rw [hMore] at h
      cases h
    rw [hMore] at h
    cases h
    rw [List.map_append, hFirst, ih hMore]
    obtain ⟨hEnd, hLines⟩ | ⟨text, hText, hLines⟩ := textLines_cases c.rest
    · rw [hEnd] at hRest
      rw [Cursor.next_of_nil hRest, hNone hRest, hLines, List.append_nil]
    · rw [hText] at hRest
      have hNext : last.next.rest = text := by rw [Cursor.rest_next, hRest, List.drop_one, List.tail_cons]
      rw [hNext, hLines, ← List.map_append, ← List.filter_append, List.singleton_append]
  | case4 => cases h

/-- What of a scan does not change with the indentations of a text. -/
def bareScan (scan : Scanning (List Token)) : Scanning (List Token) :=
  (scan.map (List.map Token.bare)).mapError LexFailure.bare

theorem bareScan_append {ts ts' : List Token} {more more' : Scanning (List Token)}
    (first : ts'.map Token.bare = ts.map Token.bare) (next : bareScan more' = bareScan more) :
    bareScan (more'.map (ts' ++ ·)) = bareScan (more.map (ts ++ ·)) := by
  cases more with
  | error e => cases more' <;> first | exact next | cases next
  | endless => cases more' <;> first | rfl | cases next
  | ok more =>
    cases more' with
    | error e' => cases next
    | endless => cases next
    | ok more' =>
      have hNext : more'.map Token.bare = more.map Token.bare := Upshot.ok.inj next
      change Upshot.ok ((ts' ++ more').map Token.bare) = Upshot.ok ((ts ++ more).map Token.bare)
      rw [List.map_append, List.map_append, first, hNext]

theorem bareScan_finish {f : Nat → Nat} {ws : Set Nat} {a ch : Char} {l l' : Layout}
    {c c' : Cursor} (h : l.Rescales f ws a ch l') (line : c'.line = c.line) :
    (finish l' c').map Token.bare = (finish l c).map Token.bare := by
  have hToken (kind : TokenKind) : (c'.token kind []).bare = (c.token kind []).bare := by
    rw [Cursor.token, Cursor.token, line]
    rfl
  rw [finish, finish, h.widths, List.map_append, List.map_append, List.map_map, List.map_map,
    List.map_map]
  simp [hToken, Function.comp_def]

theorem reindent_nil (f : Nat → Nat) (ch : Char) : reindent f ch [] = [] := by
  rw [reindent, textLines_of_nil behindLine_nil]
  exact joinLines_singleton _

theorem reindent_ne_nil {text : List Char} (f : Nat → Nat) (ch : Char) (h : text ≠ []) :
    reindent f ch text ≠ [] := by
  obtain ⟨tail, hReindent, hTail⟩ := reindent_cases f ch text
  intro hNone
  rw [hReindent, List.append_eq_nil_iff] at hNone
  obtain ⟨hBehind, -⟩ | ⟨more, -, hMore, -⟩ := hTail
  · have hWhole := written_firstLine text
    rw [hBehind, List.append_nil] at hWhole
    by_cases hIdle : (Cursor.start text).isIdle = true
    · rw [TextLine.reindent, if_neg (by simp [firstLine, hIdle]), hWhole] at hNone
      exact h hNone.1
    · obtain ⟨x, xs, hBody, -⟩ := body_of_code hIdle
      rw [TextLine.reindent, if_pos (by simp [firstLine, hIdle]), TextLine.written] at hNone
      exact absurd (hBody.symm.trans (List.append_eq_nil_iff.mp hNone.1).2) (List.cons_ne_nil x xs)
  · rw [hMore] at hNone
    cases hNone.2

/-- The tokens of a text, and of the text with its lines of code set in otherwise, or what is wrong with
both. -/
theorem scanLines_reindent {f : Nat → Nat} {ws : Set Nat} {a ch : Char} (mono : StrictMonoOn f ws)
    (zero : f 0 = 0) (outer : 0 ∈ ws) (blank : isIndentChar ch = true) {l l' : Layout}
    {c c' : Cursor} (h : l.Rescales f ws a ch l') (regular : ∀ line ∈ textLines c.rest, line.Regular ws a)
    (rest : c'.rest = reindent f ch c.rest) (line : c'.line = c.line)
    (column : c'.column = c.column) :
    bareScan (scanLines l' c') = bareScan (scanLines l c) := by
  induction hLength : c.rest.length using Nat.strongRecOn generalizing c c' l l' with
  | ind n ih =>
    by_cases hEnded : c.rest = []
    · rw [hEnded, reindent_nil] at rest
      rw [scanLines_of_nil l hEnded, scanLines_of_nil l' rest]
      exact congrArg Upshot.ok (bareScan_finish h line)
    have hCode' : c'.rest ≠ [] := rest ▸ reindent_ne_nil f ch hEnded
    obtain ⟨tail, hReindent, hTail⟩ := reindent_cases f ch c.rest
    have hEnds : EndsLine tail ∧ (behindLine c.rest = [] → tail = []) := by
      obtain ⟨-, rfl⟩ | ⟨more, hMore, rfl, -⟩ := hTail
      · exact ⟨.nil, fun _ => rfl⟩
      · exact ⟨.cons _, fun hNone => by simp [hMore] at hNone⟩
    obtain ⟨hStays, hStays'⟩ | ⟨e, e', hFails, hFails', hSame⟩ |
        ⟨ts, ts', inner, inner', last, last', hLine, hLine', hSame, hInner, hLast, hLast', hEnd⟩ :=
      scanLine_reindent h mono zero outer blank (regular _ (firstLine_mem c.rest))
        (rest.trans hReindent) line column hEnds.1 hEnds.2
    · rw [scanLines_of_endless hEnded hStays, scanLines_of_endless hCode' hStays']
    · rw [scanLines_of_error hEnded hFails, scanLines_of_error hCode' hFails']
      exact congrArg Upshot.error hSame
    · rw [scanLines_next hEnded hLine, scanLines_next hCode' hLine']
      apply bareScan_append hSame
      obtain ⟨hNone, rfl⟩ | ⟨more, hMore, rfl, hLines⟩ := hTail
      · rw [hNone] at hLast
        rw [Cursor.next_of_nil hLast, Cursor.next_of_nil hLast', scanLines_of_nil _ hLast,
          scanLines_of_nil _ hLast']
        exact congrArg Upshot.ok (bareScan_finish hInner hEnd)
      · obtain ⟨_, _, _⟩ := last
        obtain ⟨_, _, _⟩ := last'
        dsimp only at hLast hLast' hEnd
        subst hEnd
        rw [hLast, hLast', hMore]
        have hShorter : more.length < n := by
          rw [← hLength, ← written_firstLine c.rest, hMore, List.length_append, List.length_cons]
          omega
        have hRegular : ∀ line ∈ textLines more, line.Regular ws a :=
          fun line hIn => regular line (hLines ▸ List.mem_cons_of_mem _ hIn)
        exact ih _ hShorter hInner hRegular rfl rfl rfl rfl

end Directive
