import Mathlib.Data.Finset.Card
import Directive.Proofs.Token.CodeLine

/-!
# The off-side rule

How deep a line of code stands is seen from the widths of the lines up to it: a width is open as long as
no narrower line follows. What is wrong with an indentation is seen from them too.

* `StaysOpen`, `openWidths`: the widths that are open after some lines;
* `offence?`: what is wrong with the indentation of a line, if something is;
* `Layout.Follows`: a layout is up to date with the lines behind it;
* `enter_of_offence`, `enter_of_none`: one line, and the layout behind it;
* `through_cases`: a run of lines up to the first offence;
* `offSide_ofText`: a whole text.
-/

namespace Directive

/-! ### Open widths -/

/-- Some line has the width, and none behind it is narrower. -/
def StaysOpen (widths : List Nat) (w : Nat) : Prop :=
  ∃ front back, widths = front ++ w :: back ∧ ∀ v ∈ back, w ≤ v

theorem staysOpen_iff_tails {widths : List Nat} {w : Nat} :
    StaysOpen widths w ↔ ∃ back ∈ widths.tails, back.head? = some w ∧ ∀ v ∈ back, w ≤ v := by
  constructor
  · rintro ⟨front, back, rfl, hWider⟩
    refine ⟨w :: back, by simp, rfl, ?_⟩
    exact List.forall_mem_cons.mpr ⟨Nat.le_refl w, hWider⟩
  · rintro ⟨back, hBack, hHead, hWider⟩
    obtain ⟨rest, rfl⟩ := List.head?_eq_some_iff.mp hHead
    obtain ⟨front, rfl⟩ := (List.mem_tails _ _).mp hBack
    exact ⟨front, rest, rfl, fun v hv => hWider v (List.mem_cons_of_mem w hv)⟩

instance (widths : List Nat) (w : Nat) : Decidable (StaysOpen widths w) :=
  decidable_of_iff _ staysOpen_iff_tails.symm

@[simp]
theorem not_staysOpen_nil (w : Nat) : ¬ StaysOpen [] w := by
  simp [staysOpen_iff_tails]

/-- A line closes what is wider than it, and its own width is open behind it. -/
theorem staysOpen_concat {widths : List Nat} {v w : Nat} :
    StaysOpen (widths ++ [v]) w ↔ w = v ∨ StaysOpen widths w ∧ w ≤ v := by
  constructor
  · rintro ⟨front, back, hWidths, hWider⟩
    rcases List.eq_nil_or_concat back with rfl | ⟨back, u, rfl⟩
    · obtain ⟨-, hLast⟩ := List.append_inj' hWidths rfl
      cases hLast
      exact .inl rfl
    · rw [List.concat_eq_append, ← List.cons_append, ← List.append_assoc] at hWidths
      obtain ⟨rfl, hLast⟩ := List.append_inj' hWidths rfl
      cases hLast
      rw [List.concat_eq_append] at hWider
      exact .inr ⟨⟨front, back, rfl, fun x hx => hWider x (List.mem_append_left _ hx)⟩,
        hWider v (List.mem_append_right _ (List.mem_singleton_self v))⟩
  · rintro (rfl | ⟨⟨front, back, rfl, hWider⟩, hLe⟩)
    · exact ⟨widths, [], rfl, by simp⟩
    · refine ⟨front, back ++ [v], by simp, ?_⟩
      exact List.forall_mem_append.mpr ⟨hWider, by simpa using hLe⟩

theorem StaysOpen.mem {widths : List Nat} {w : Nat} (h : StaysOpen widths w) : w ∈ widths := by
  obtain ⟨front, back, rfl, -⟩ := h
  simp

/-- The widths of the blocks that are open behind lines of some widths. -/
def openWidths (widths : List Nat) : Finset Nat :=
  widths.toFinset.filter fun w => 0 < w ∧ StaysOpen widths w

theorem mem_openWidths {widths : List Nat} {w : Nat} :
    w ∈ openWidths widths ↔ 0 < w ∧ StaysOpen widths w := by
  rw [openWidths, Finset.mem_filter, List.mem_toFinset]
  exact ⟨fun h => h.2, fun h => ⟨h.2.mem, h⟩⟩

/-! ### Offences -/

namespace CodeLine

def widths (lines : List CodeLine) : List Nat := lines.map CodeLine.width

theorem widths_concat (before : List CodeLine) (line : CodeLine) :
    widths (before ++ [line]) = widths before ++ [line.width] := by
  simp [widths]

/-- Tabs and spaces in one indentation. -/
def Mixed (line : CodeLine) : Prop := ' ' ∈ line.indent ∧ '\t' ∈ line.indent

/-- A character in the indentation that an earlier line does not use. -/
def Changed (before : List CodeLine) (line : CodeLine) : Prop :=
  ∃ earlier ∈ before, ∃ a ∈ earlier.indent, ∃ b ∈ line.indent, a ≠ b

/-- A line that leaves a block, but not for one that is open. -/
def Halfway (before : List CodeLine) (line : CodeLine) : Prop :=
  (∃ previous ∈ before.getLast?, line.width < previous.width) ∧ 0 < line.width ∧
    ¬ StaysOpen (widths before) line.width

instance (line : CodeLine) : Decidable line.Mixed := inferInstanceAs (Decidable (_ ∧ _))

instance (before : List CodeLine) (line : CodeLine) : Decidable (line.Changed before) :=
  inferInstanceAs (Decidable (∃ earlier ∈ before, ∃ a ∈ earlier.indent, ∃ b ∈ line.indent, a ≠ b))

instance (before : List CodeLine) (line : CodeLine) : Decidable (line.Halfway before) :=
  inferInstanceAs (Decidable (_ ∧ _ ∧ _))

/-- What is wrong with the indentation of a line behind others, if something is. -/
def offence? (before : List CodeLine) (line : CodeLine) : Option LexProblem :=
  if line.Mixed then some .mixedIndentation
  else if line.Changed before then some .changedIndentation
  else if line.Halfway before then some .unmatchedDedent
  else none

def Offends (before : List CodeLine) (line : CodeLine) : Prop :=
  line.Mixed ∨ line.Changed before ∨ line.Halfway before

theorem offence?_eq_none_iff {before : List CodeLine} {line : CodeLine} :
    line.offence? before = none ↔ ¬ line.Offends before := by
  unfold offence? Offends
  grind

/-- An indentation of one kind repeats its first character. -/
theorem eq_head_of_not_mixed {line : CodeLine} {a b : Char} (h : ¬ line.Mixed)
    (ha : a ∈ line.indent) (hb : b ∈ line.indent) : a = b := by
  have hBlank {c : Char} (hc : c ∈ line.indent) : c = ' ' ∨ c = '\t' := by
    simpa [isIndentChar] using line.blank c hc
  obtain rfl | rfl := hBlank ha
  · obtain rfl | rfl := hBlank hb
    · rfl
    · exact absurd ⟨ha, hb⟩ h
  · obtain rfl | rfl := hBlank hb
    · exact absurd ⟨hb, ha⟩ h
    · rfl

end CodeLine

/-! ### The layout behind some lines -/

section Nested

variable {widths : List Nat} {v w : Nat}

/-- Of nested widths, leaving those that are wider than some width keeps the others. -/
theorem mem_drop_takeWhile (nested : widths.Pairwise (· > ·)) :
    v ∈ widths.drop (widths.takeWhile (w < ·)).length ↔ v ∈ widths ∧ v ≤ w := by
  induction widths with
  | nil => simp
  | cons u widths ih =>
    obtain ⟨hInner, hNested⟩ := List.pairwise_cons.mp nested
    by_cases hWider : w < u
    · simp only [List.takeWhile_cons, decide_eq_true hWider, ↓reduceIte, List.length_cons,
        List.drop_succ_cons, ih hNested, List.mem_cons]
      constructor
      · exact fun ⟨hv, hLe⟩ => ⟨.inr hv, hLe⟩
      · rintro ⟨rfl | hv, hLe⟩
        · omega
        · exact ⟨hv, hLe⟩
    · simp only [List.takeWhile_cons, decide_eq_false hWider, Bool.false_eq_true, ↓reduceIte,
        List.length_nil, List.drop_zero, List.mem_cons]
      constructor
      · rintro (rfl | hv)
        · exact ⟨.inl rfl, by omega⟩
        · have hNarrower := hInner v hv
          exact ⟨.inr hv, by omega⟩
      · exact fun h => h.1

theorem le_headD (nested : widths.Pairwise (· > ·)) (h : v ∈ widths) : v ≤ widths.headD 0 := by
  cases widths with
  | nil => cases h
  | cons u widths =>
    obtain rfl | h := List.mem_cons.mp h
    · exact Nat.le_refl _
    · exact Nat.le_of_lt ((List.pairwise_cons.mp nested).1 v h)

theorem headD_mem (h : 0 < widths.headD 0) : widths.headD 0 ∈ widths := by
  cases widths with
  | nil => exact absurd h (Nat.lt_irrefl 0)
  | cons u widths => exact List.mem_cons_self

end Nested

/-- A layout that is up to date with the lines behind it. -/
structure Layout.Behind (l : Layout) (before : List CodeLine) : Prop where
  nested : l.widths.Pairwise (· > ·)
  widths : ∀ w, w ∈ l.widths ↔ 0 < w ∧ StaysOpen (CodeLine.widths before) w
  width : ∀ previous ∈ before.getLast?, l.width = previous.width
  unset : l.char = none → ∀ line ∈ before, line.indent = []
  used : ∀ a, l.char = some a → ∃ line ∈ before, a ∈ line.indent
  same : ∀ a, l.char = some a → ∀ line ∈ before, ∀ b ∈ line.indent, b = a

theorem nesting_dedents (widths : List Nat) (text : String) (line column : Int) :
    nesting (widths.map fun _ => ⟨.dedent, text, line, column⟩) = -widths.length := by
  simp [nesting, List.countP_replicate]

namespace Layout.Behind

variable {l inner : Layout} {before : List CodeLine}

theorem start : Layout.Behind {} [] where
  nested := .nil
  widths := by simp [CodeLine.widths]
  width := by simp
  unset := by simp
  used := by simp
  same := by simp

theorem length (h : l.Behind before) :
    l.widths.length = (openWidths (CodeLine.widths before)).card := by
  have hSame : l.widths.toFinset = openWidths (CodeLine.widths before) := by
    ext w
    rw [List.mem_toFinset, mem_openWidths, h.widths]
  rw [← hSame, List.toFinset_card_of_nodup]
  exact h.nested.imp fun hGt => Nat.ne_of_gt hGt

/-- Whether the character of an indentation is another one than that of the lines behind. -/
theorem changed_iff (h : l.Behind before) {line : CodeLine} {c : Char} {cs : List Char}
    (hIndent : line.indent = c :: cs) (single : ¬ line.Mixed) :
    line.Changed before ↔ ∃ d, l.char = some d ∧ c ≠ d := by
  have hHead : c ∈ line.indent := hIndent ▸ List.mem_cons_self
  constructor
  · rintro ⟨earlier, hEarlier, a, ha, b, hb, hDiffer⟩
    cases hChar : l.char with
    | none =>
      rw [h.unset hChar earlier hEarlier] at ha
      cases ha
    | some d =>
      refine ⟨d, rfl, ?_⟩
      rintro rfl
      rw [h.same c hChar earlier hEarlier a ha, CodeLine.eq_head_of_not_mixed single hb hHead]
        at hDiffer
      exact hDiffer rfl
  · rintro ⟨d, hChar, hDiffer⟩
    obtain ⟨earlier, hEarlier, hd⟩ := h.used d hChar
    exact ⟨earlier, hEarlier, d, hd, c, hHead, Ne.symm hDiffer⟩

/-- The characters of an indentation are held against those of the lines behind. -/
theorem indentWith (h : l.Behind before) (line : CodeLine) :
    l.indentWith line.indent =
      if line.Mixed then .error .mixedIndentation
      else if line.Changed before then .error .changedIndentation
      else .ok { l with char := l.char.or line.indent.head? } := by
  cases hIndent : line.indent with
  | nil =>
    have hMixed : ¬ line.Mixed := by simp [CodeLine.Mixed, hIndent]
    have hChanged : ¬ line.Changed before := by simp [CodeLine.Changed, hIndent]
    rw [if_neg hMixed, if_neg hChanged]
    simp [Layout.indentWith]
  | cons c cs =>
    have hContains : ((c :: cs).contains ' ' && (c :: cs).contains '\t') = true ↔ line.Mixed := by
      simp only [CodeLine.Mixed, hIndent, Bool.and_eq_true, List.contains_iff_mem]
    unfold Layout.indentWith
    dsimp only
    by_cases hMixed : line.Mixed
    · rw [if_pos (hContains.mpr hMixed), if_pos hMixed]
    · have hChanged := h.changed_iff hIndent hMixed
      rw [if_neg fun hBoth => hMixed (hContains.mp hBoth), if_neg hMixed]
      cases hChar : l.char with
      | none => simp [hChanged, hChar]
      | some d =>
        by_cases hSame : c = d
        · have hUnchanged : ¬ line.Changed before := by simp [hChanged, hChar, hSame]
          dsimp only
          rw [if_pos hSame, if_neg hUnchanged, Option.some_or, ← hChar]
        · simp [hChanged, hChar, hSame]

theorem wide (h : l.Behind before) {w : Nat} (hw : w ∈ l.widths) : 0 < w := ((h.widths w).mp hw).1

/-- A line that opens no block has the width of the block that it comes back to, if some earlier line
has its width and is open. -/
theorem headD_drop_eq_iff (h : l.Behind before) {w : Nat} :
    (l.widths.drop (l.left w).length).headD 0 = w ↔
      w = 0 ∨ StaysOpen (CodeLine.widths before) w := by
  have hMem {v : Nat} : v ∈ l.widths.drop (l.left w).length ↔ v ∈ l.widths ∧ v ≤ w :=
    mem_drop_takeWhile h.nested
  have hNested : (l.widths.drop (l.left w).length).Pairwise (· > ·) :=
    h.nested.sublist (List.drop_sublist _ _)
  constructor
  · intro hWidth
    by_cases hFlat : w = 0
    · exact .inl hFlat
    · have hHead := @headD_mem (l.widths.drop (l.left w).length) (by omega)
      rw [hWidth, hMem, h.widths] at hHead
      exact .inr hHead.1.2
  · intro hOpen
    by_cases hFlat : w = 0
    · by_contra hWidth
      have hHead := @headD_mem (l.widths.drop (l.left w).length) (by omega)
      rw [hMem] at hHead
      have hWide := h.wide hHead.1
      omega
    · have hOpen := hOpen.resolve_left hFlat
      have hHere : w ∈ l.widths.drop (l.left w).length :=
        hMem.mpr ⟨(h.widths w).mpr ⟨by omega, hOpen⟩, Nat.le_refl w⟩
      have hLe := le_headD hNested hHere
      have hHead := @headD_mem (l.widths.drop (l.left w).length) (by omega)
      have hGe := (hMem.mp hHead).2
      omega

/-- A line stops halfway if it opens no block and is not as wide as the block that it comes back to. -/
theorem halfway_iff (h : l.Behind before) (line : CodeLine) :
    line.Halfway before ↔ ¬ l.width < line.width ∧
      (l.widths.drop (l.left line.width).length).headD 0 ≠ line.width := by
  rw [Ne, h.headD_drop_eq_iff, not_or]
  constructor
  · rintro ⟨⟨previous, hPrevious, hNarrower⟩, hPos, hClosed⟩
    rw [h.width previous hPrevious]
    exact ⟨by omega, by omega, hClosed⟩
  · rintro ⟨hWidth, hPos, hClosed⟩
    refine ⟨?_, by omega, hClosed⟩
    have hHead := @headD_mem l.widths (show 0 < l.width by omega)
    have hOpen := ((h.widths _).mp hHead).2
    have hDiffer : line.width ≠ l.width := by
      intro hSame
      rw [hSame] at hClosed
      exact hClosed hOpen
    cases hLast : before.getLast? with
    | none =>
      rw [List.getLast?_eq_none_iff] at hLast
      subst hLast
      exact absurd hOpen (not_staysOpen_nil _)
    | some previous =>
      have hPrevious := h.width previous hLast
      exact ⟨previous, rfl, by omega⟩

/-- The characters of a line without offence suit the layout behind it. -/
theorem char_concat (h : l.Behind before) {line : CodeLine} (single : ¬ line.Mixed)
    (unchanged : ¬ line.Changed before) {a : Char} (ha : l.char.or line.indent.head? = some a) :
    (∃ other ∈ before ++ [line], a ∈ other.indent) ∧
      ∀ other ∈ before ++ [line], ∀ b ∈ other.indent, b = a := by
  cases hChar : l.char with
  | some d =>
    rw [hChar, Option.some_or, Option.some.injEq] at ha
    subst ha
    obtain ⟨earlier, hEarlier, hd⟩ := h.used d hChar
    refine ⟨⟨earlier, List.mem_append_left _ hEarlier, hd⟩, ?_⟩
    refine List.forall_mem_append.mpr ⟨h.same d hChar, List.forall_mem_singleton.mpr ?_⟩
    intro b hb
    by_contra hDiffer
    exact unchanged ⟨earlier, hEarlier, d, hd, b, hb, Ne.symm hDiffer⟩
  | none =>
    rw [hChar, Option.none_or] at ha
    have hHead : a ∈ line.indent := List.mem_of_head? ha
    refine ⟨⟨line, by simp, hHead⟩, ?_⟩
    refine List.forall_mem_append.mpr ⟨fun earlier hEarlier b hb => ?_, ?_⟩
    · rw [h.unset hChar earlier hEarlier] at hb
      cases hb
    · refine List.forall_mem_singleton.mpr fun b hb => ?_
      exact CodeLine.eq_head_of_not_mixed single hb hHead

/-- The layout behind one more line, from the widths that are open there. -/
theorem concat (h : l.Behind before) {line : CodeLine} (single : ¬ line.Mixed)
    (unchanged : ¬ line.Changed before) {widths : List Nat} (nested : widths.Pairwise (· > ·))
    (mem : ∀ w, w ∈ widths ↔ 0 < w ∧ (w = line.width ∨ StaysOpen (CodeLine.widths before) w ∧
      w ≤ line.width))
    (width : widths.headD 0 = line.width) :
    Layout.Behind ⟨widths, l.char.or line.indent.head?⟩ (before ++ [line]) where
  nested := nested
  widths w := by
    rw [mem, CodeLine.widths_concat, staysOpen_concat]
  width := by simpa [Layout.width] using width
  unset hNone := by
    rw [Option.or_eq_none_iff] at hNone
    refine List.forall_mem_append.mpr ⟨h.unset hNone.1, List.forall_mem_singleton.mpr ?_⟩
    exact List.head?_eq_none_iff.mp hNone.2
  used a ha := (h.char_concat single unchanged ha).1
  same a ha := (h.char_concat single unchanged ha).2

/-- A line at an offence stops the scan. -/
theorem enter_of_offence (h : l.Behind before) {line : CodeLine} {p : LexProblem}
    (offence : line.offence? before = some p) :
    l.enter line.indent line.number = .error ⟨p, line.number, 1⟩ := by
  unfold Layout.enter
  rw [h.indentWith]
  unfold CodeLine.offence? at offence
  by_cases hMixed : line.Mixed
  · rw [if_pos hMixed] at offence ⊢
    cases offence
    rfl
  rw [if_neg hMixed] at offence ⊢
  by_cases hChanged : line.Changed before
  · rw [if_pos hChanged] at offence ⊢
    cases offence
    rfl
  rw [if_neg hChanged] at offence ⊢
  by_cases hHalfway : line.Halfway before
  · rw [if_pos hHalfway] at offence
    cases offence
    obtain ⟨hNarrow, hWidth⟩ := (h.halfway_iff line).mp hHalfway
    exact (if_neg hNarrow).trans (if_neg hWidth)
  · rw [if_neg hHalfway] at offence
    cases offence

/-- A line without offence opens a block or comes back to one. -/
theorem enter_of_none (h : l.Behind before) {line : CodeLine} (fine : ¬ line.Offends before) :
    ∃ inner lead, l.enter line.indent line.number = .ok (inner, lead) ∧
      inner.Behind (before ++ [line]) ∧ l.widths.length + nesting lead = inner.widths.length ∧
      lead.countP (·.kind = .newline) = 0 := by
  obtain ⟨hMixed, hChanged, hHalfway⟩ : ¬ line.Mixed ∧ ¬ line.Changed before ∧
      ¬ line.Halfway before := by
    simpa only [CodeLine.Offends, not_or] using fine
  unfold Layout.enter
  rw [h.indentWith, if_neg hMixed, if_neg hChanged]
  dsimp only
  by_cases hWider : l.width < line.width
  · refine ⟨_, _, if_pos hWider, h.concat hMixed hChanged ?_ ?_ rfl, ?_, rfl⟩
    · refine List.pairwise_cons.mpr ⟨fun v hv => ?_, h.nested⟩
      exact Nat.lt_of_le_of_lt (le_headD h.nested hv) hWider
    · intro w
      rw [List.mem_cons, h.widths]
      constructor
      · rintro (rfl | ⟨hPos, hOpen⟩)
        · exact ⟨Nat.lt_of_le_of_lt (Nat.zero_le _) hWider, .inl rfl⟩
        · have hLe := le_headD h.nested ((h.widths w).mpr ⟨hPos, hOpen⟩)
          exact ⟨hPos, .inr ⟨hOpen, Nat.le_of_lt (Nat.lt_of_le_of_lt hLe hWider)⟩⟩
      · rintro ⟨hPos, rfl | ⟨hOpen, -⟩⟩
        · exact .inl rfl
        · exact .inr ⟨hPos, hOpen⟩
    · rw [nesting_indent rfl]
      rfl
  · have hWidth : (l.widths.drop (l.left line.width).length).headD 0 = line.width := by
      by_contra hDiffer
      exact hHalfway ((h.halfway_iff line).mpr ⟨hWider, hDiffer⟩)
    have hLeft : (l.left line.width).length ≤ l.widths.length :=
      (List.takeWhile_prefix _).length_le
    refine ⟨_, _, (if_neg hWider).trans (if_pos hWidth), h.concat hMixed hChanged ?_ ?_ hWidth,
      ?_, ?_⟩
    · exact h.nested.sublist (List.drop_sublist _ _)
    · intro w
      refine (mem_drop_takeWhile h.nested).trans ?_
      rw [h.widths]
      constructor
      · rintro ⟨⟨hPos, hOpen⟩, hLe⟩
        exact ⟨hPos, .inr ⟨hOpen, hLe⟩⟩
      · rintro ⟨hPos, rfl | ⟨hOpen, hLe⟩⟩
        · have hOpen := (h.headD_drop_eq_iff.mp hWidth).resolve_left (Nat.ne_of_gt hPos)
          exact ⟨⟨hPos, hOpen⟩, Nat.le_refl _⟩
        · exact ⟨⟨hPos, hOpen⟩, hLe⟩
    · rw [nesting_dedents, List.length_drop]
      change (l.widths.length : Int) + -(l.left line.width).length =
        (l.widths.length - (l.left line.width).length : Nat)
      omega
    · rw [List.countP_map]
      exact List.countP_eq_zero.mpr fun _ _ => by simp

/-- Every line of a run has its tokens, as deep as widths are open there, and offends nowhere. -/
theorem through_ok (h : l.Behind before) {lines : List CodeLine} {final : Layout}
    {ts : List Token} (through : l.through lines = .ok (final, ts)) {front back : List CodeLine}
    {line : CodeLine} (split : lines = front ++ line :: back) :
    ¬ line.Offends (before ++ front) ∧ ∃ tsFront tsBack, ts = tsFront ++ line.tokens ++ tsBack ∧
      tsFront.countP (·.kind = .newline) = front.length ∧
      l.widths.length + nesting tsFront =
        (openWidths (CodeLine.widths (before ++ front ++ [line]))).card := by
  induction lines generalizing l before front ts with
  | nil => simp at split
  | cons first lines ih =>
    have hFine : ¬ first.Offends before := by
      rw [← CodeLine.offence?_eq_none_iff]
      cases hOffence : first.offence? before with
      | none => rfl
      | some p =>
        rw [Layout.through, h.enter_of_offence hOffence] at through
        cases through
    obtain ⟨inner, lead, hEnter, hBehind, hDepth, hLines⟩ := h.enter_of_none hFine
    rw [Layout.through, hEnter] at through
    dsimp only at through
    rcases hRest : inner.through lines with e | ⟨last, more⟩
    · rw [hRest] at through
      cases through
    rw [hRest] at through
    cases through
    cases front with
    | nil =>
      cases split
      rw [List.append_nil]
      exact ⟨hFine, lead, more, rfl, hLines, hDepth.trans (by rw [hBehind.length])⟩
    | cons other front =>
      cases split
      obtain ⟨hNext, tsFront, tsBack, rfl, hCount, hNesting⟩ := ih hBehind hRest rfl
      rw [List.append_cons before first front]
      refine ⟨hNext, lead ++ first.tokens ++ tsFront, tsBack, by simp, ?_, ?_⟩
      · rw [List.countP_append, List.countP_append, hLines, first.countP_tokens, hCount,
          List.length_cons]
        omega
      · rw [← hNesting, nesting_append, nesting_append, first.nesting_tokens]
        omega

/-- A run stops at the first offence. -/
theorem through_error (h : l.Behind before) {lines : List CodeLine} {e : LexFailure}
    (through : l.through lines = .error e) :
    ∃ front line back p, lines = front ++ line :: back ∧
      line.offence? (before ++ front) = some p ∧ e = ⟨p, line.number, 1⟩ ∧
      ∀ b other a, front = b ++ other :: a → ¬ other.Offends (before ++ b) := by
  induction lines generalizing l before with
  | nil => cases through
  | cons first lines ih =>
    cases hOffence : first.offence? before with
    | some p =>
      rw [Layout.through, h.enter_of_offence hOffence] at through
      cases through
      exact ⟨[], first, lines, p, rfl, by rwa [List.append_nil], rfl, by simp⟩
    | none =>
      have hFine := CodeLine.offence?_eq_none_iff.mp hOffence
      obtain ⟨inner, lead, hEnter, hBehind, -, -⟩ := h.enter_of_none hFine
      rw [Layout.through, hEnter] at through
      dsimp only at through
      rcases hRest : inner.through lines with e' | p
      · rw [hRest] at through
        cases through
        obtain ⟨front, line, back, p, rfl, hFirst, rfl, hFiner⟩ := ih hBehind hRest
        rw [← List.append_cons before first front] at hFirst
        refine ⟨first :: front, line, back, p, rfl, hFirst, rfl, ?_⟩
        rintro (_ | ⟨head, b⟩) other a hSplit
        · cases hSplit
          rwa [List.append_nil]
        · cases hSplit
          rw [List.append_cons before first b]
          exact hFiner b other a rfl
      · rw [hRest] at through
        cases through

end Layout.Behind

/-! ### Texts -/

theorem card_openWidths_eq_zero {widths : List Nat} {v : Nat} :
    (openWidths (widths ++ [v])).card = 0 ↔ v = 0 := by
  rw [Finset.card_eq_zero, Finset.eq_empty_iff_forall_notMem]
  constructor
  · intro hNone
    by_contra hPos
    exact hNone v (mem_openWidths.mpr ⟨by omega, staysOpen_concat.mpr (.inl rfl)⟩)
  · rintro rfl w hw
    obtain ⟨hPos, hOpen⟩ := mem_openWidths.mp hw
    obtain rfl | ⟨-, hLe⟩ := staysOpen_concat.mp hOpen
    · omega
    · omega

/-- The code lines of a text. -/
def CodeLine.ofText (text : String) : Scanning (List CodeLine) :=
  codeLines (.start (Text.joinLineEnds text.toList))

/-- The first line that offends, and how it does. -/
def FirstOffence (lines : List CodeLine) (line : CodeLine) (p : LexProblem) : Prop :=
  ∃ before after, lines = before ++ line :: after ∧ line.offence? before = some p ∧
    ∀ b other a, before = b ++ other :: a → ¬ other.Offends b

theorem ofText_eq_through {text : String} {lines : List CodeLine}
    (h : CodeLine.ofText text = .ok lines) : ∃ last, Token.ofText text =
      (Upshot.ofExcept
        ((({} : Layout).through lines).mapError fun e => e.toFault (Text.lines text))).map
          fun p => p.2 ++ finish p.1 last := by
  obtain ⟨last, hScan⟩ := scanLines_eq_through h {}
  refine ⟨last, ?_⟩
  rw [Token.ofText, hScan]
  cases ({} : Layout).through lines <;> rfl

/-- **The off-side rule.** In a text that tokenizes, every line of code stands as deep as there are
widths open behind it. A text whose code lines have no other fault tokenizes unless one of them offends:
it mixes tabs and spaces, or uses another character than an earlier one, or leaves a block but not for
one that is open. The fault is that of the first such line. -/
theorem offSide_ofText (text : String) :
    (∀ ts, Token.ofText text = .ok ts → ∃ lines, CodeLine.ofText text = .ok lines ∧
      ∀ before line after, lines = before ++ line :: after →
        ∃ front back, ts = front ++ line.tokens ++ back ∧
          front.countP (·.kind = .newline) = before.length ∧
          nesting front = (openWidths (CodeLine.widths (before ++ [line]))).card ∧
          (nesting front = 0 ↔ line.width = 0)) ∧
    ∀ lines, CodeLine.ofText text = .ok lines → Token.ofText text ≠ .endless ∧
      ((∃ f, Token.ofText text = .error f) ↔
        ∃ before line after, lines = before ++ line :: after ∧ line.Offends before) ∧
      ∀ f, Token.ofText text = .error f → ∃ line p, FirstOffence lines line p ∧
        f = LexFailure.toFault ⟨p, line.number, 1⟩ (Text.lines text) := by
  have hLines {ts : List Token} (tokens : Token.ofText text = .ok ts) :
      ∃ lines, CodeLine.ofText text = .ok lines :=
    codeLines_of_scanLines (ofText_eq_ok_iff.mp tokens)
  refine ⟨fun ts hTokens => ?_, fun lines hRead => ?_⟩
  · obtain ⟨lines, hRead⟩ := hLines hTokens
    refine ⟨lines, hRead, fun before line after hSplit => ?_⟩
    obtain ⟨last, hThrough⟩ := ofText_eq_through hRead
    rw [hTokens] at hThrough
    rcases hRun : ({} : Layout).through lines with e | ⟨final, body⟩
    · rw [hRun] at hThrough
      cases hThrough
    rw [hRun] at hThrough
    cases hThrough
    obtain ⟨-, front, back, rfl, hCount, hNesting⟩ := Layout.Behind.start.through_ok hRun hSplit
    rw [List.nil_append, List.length_nil, Int.ofNat_zero, Int.zero_add] at hNesting
    refine ⟨front, back ++ finish final last, by simp, hCount, hNesting, ?_⟩
    rw [hNesting, Int.natCast_eq_zero, CodeLine.widths_concat, card_openWidths_eq_zero]
  · obtain ⟨last, hThrough⟩ := ofText_eq_through hRead
    rcases hRun : ({} : Layout).through lines with e | ⟨final, body⟩
    · rw [hRun] at hThrough
      obtain ⟨before, line, after, p, rfl, hOffence, rfl, hFine⟩ :=
        Layout.Behind.start.through_error hRun
      refine ⟨by rw [hThrough]; exact nofun,
        ⟨fun _ => ⟨before, line, after, rfl, ?_⟩, fun _ => ⟨_, hThrough⟩⟩, fun f hFails => ?_⟩
      · by_contra hFine
        have hNone := CodeLine.offence?_eq_none_iff.mpr hFine
        rw [List.nil_append, hNone] at hOffence
        cases hOffence
      · rw [hThrough] at hFails
        cases hFails
        exact ⟨line, p, ⟨before, after, rfl, hOffence, hFine⟩, rfl⟩
    · rw [hRun] at hThrough
      have hTokens {f : Fault} : Token.ofText text ≠ .error f := by
        rw [hThrough]
        exact nofun
      refine ⟨by rw [hThrough]; exact nofun,
        ⟨fun ⟨f, hFails⟩ => absurd hFails hTokens, ?_⟩, fun f hFails => absurd hFails hTokens⟩
      rintro ⟨before, line, after, hSplit, hOffends⟩
      obtain ⟨hFine, -⟩ := Layout.Behind.start.through_ok hRun hSplit
      exact absurd hOffends hFine

theorem offSide_of_dedents :
    (∃ ts front, Token.ofText
        "CHAIN:\n  CHAIN:\n    SEARCH: \"tea\"\n  SEARCH: \"pot\"\n" = .ok ts ∧
      front <+: ts ∧ front.countP (·.kind = .newline) = 2 ∧ nesting front = 2) ∧
    ∃ f lines line, Token.ofText "CHAIN:\n    SEARCH: \"tea\"\n  SEARCH: \"pot\"\n" = .error f ∧
      CodeLine.ofText "CHAIN:\n    SEARCH: \"tea\"\n  SEARCH: \"pot\"\n" = .ok lines ∧
      FirstOffence lines line .unmatchedDedent ∧ f.place.line = some line.number := by
  constructor
  · generalize hText : "CHAIN:\n  CHAIN:\n    SEARCH: \"tea\"\n  SEARCH: \"pot\"\n" = text
    have hWidths : (Token.ofText text).toOption.isSome = true ∧
        (CodeLine.ofText text).toOption.map CodeLine.widths = some [0, 2, 4, 2] := by
      subst hText
      decide +kernel
    obtain ⟨ts, hTokens⟩ := Upshot.exists_of_isSome hWidths.1
    obtain ⟨lines, hLines, hDepth⟩ := (offSide_ofText text).1 ts hTokens
    have hSame : lines.map CodeLine.width = [0, 2, 4, 2] := by
      rw [hLines] at hWidths
      exact Option.some.inj hWidths.2
    obtain ⟨a, b, c, d, rfl⟩ : ∃ a b c d, lines = [a, b, c, d] := by
      have hLength := congrArg List.length hSame
      rw [List.length_map] at hLength
      exact List.length_eq_four.mp hLength
    obtain ⟨front, back, rfl, hCount, hNesting, -⟩ := hDepth [a, b] c [d] rfl
    have hPrefix : CodeLine.widths [a, b, c] = [0, 2, 4] := congrArg (List.take 3) hSame
    refine ⟨_, front, hTokens, ⟨_, (List.append_assoc _ _ _).symm⟩, hCount, ?_⟩
    rw [hNesting, List.cons_append, List.cons_append, List.nil_append, hPrefix]
    decide
  · generalize hText : "CHAIN:\n    SEARCH: \"tea\"\n  SEARCH: \"pot\"\n" = text
    have hFails : (match Token.ofText text with
        | .error ⟨.lex p, _⟩ => some p
        | _ => none) = some .unmatchedDedent ∧ (CodeLine.ofText text).toOption.isSome = true := by
      subst hText
      decide +kernel
    obtain ⟨lines, hLines⟩ := Upshot.exists_of_isSome hFails.2
    rcases hTokens : Token.ofText text with f | ts | _
    · obtain ⟨line, p, hFirst, rfl⟩ := ((offSide_ofText text).2 lines hLines).2.2 f hTokens
      rw [hTokens] at hFails
      cases hFails.1
      exact ⟨_, lines, line, rfl, hLines, hFirst, rfl⟩
    · rw [hTokens] at hFails
      cases hFails.1
    · rw [hTokens] at hFails
      cases hFails.1

end Directive
