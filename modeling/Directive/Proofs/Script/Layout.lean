import Directive.Proofs.Script.Shape

/-!
# The tree follows the layout

* `Stands`: nodes that stand one under another in a column, each behind all that came before;
* `stands_of_reads`: so do the nodes that a parse reads from tokens in their places;
* `Stands.lines`, `Stands.columns_le`, `Stands.owner`: what this says of all nodes in textual order;
* `FollowsLayout`, `followsLayout_of_ofText`: lines and columns of every parsed script.
-/

namespace Directive

open ParseContext

namespace Node

mutual

/-- A node and those below it, in the order of the text. -/
def preorder : Node → List Node
  | .invocation i => [.invocation i]
  | .chain slot line column steps => .chain slot line column steps :: preorderAll steps

def preorderAll : List Node → List Node
  | [] => []
  | n :: ns => preorder n ++ preorderAll ns

end

def isChain : Node → Bool
  | .invocation _ => false
  | .chain _ _ _ _ => true

end Node

open Node (preorder preorderAll)

/-- The last chain among some nodes that stands further left than a column. -/
def nearest (before : List Node) (column : Int) : Option Node :=
  (before.filter fun n => n.isChain && decide (n.column < column)).getLast?

/-- Nodes in one column, the first of them behind a line and the last thing below them on another
one; the steps of a chain stand further right. -/
inductive Stands : Int → Int → List Node → Int → Prop
  | nil {column line : Int} : Stands column line [] line
  | command {column line last : Int} {i : Invocation} {nodes : List Node} (here : i.column = column)
      (behind : line < i.line) (rest : Stands column i.line nodes last) :
      Stands column line (.invocation i :: nodes) last
  | chain {column inner line line' middle last : Int} {slot : Option String}
      {steps nodes : List Node} (behind : line < line') (further : column < inner)
      (inside : Stands inner line' steps middle) (rest : Stands column middle nodes last) :
      Stands column line (.chain slot line' column steps :: nodes) last

theorem CommandLine.header {g : Grammar} {step : Option Nat} {line : List Token} {i : Invocation}
    (h : CommandLine g step line i) :
    ∃ first others, line = first :: others ∧ i.line = first.line ∧ i.column = first.column := by
  cases h
  exact ⟨_, _, rfl, rfl, rfl⟩

/-- The nodes that are read from tokens in their places stand in their places. -/
theorem stands_of_reads {c : ParseContext} {step : Option Nat} {ts rest : List Token}
    {nodes : List Node} (h : Reads c step ts nodes rest) {opens : Bool} {widths : List Nat}
    {line : Int} (placed : Placed opens widths line ts) :
    ∃ last, Stands (widths.headD 0 + 1) line nodes last ∧
      ∀ width outer, widths = width :: outer → Placed false outer last rest := by
  induction h generalizing opens widths line with
  | nothing => exact absurd rfl placed.laid.ne_nil
  | eof kind =>
    refine ⟨line, .nil, fun width outer h => ?_⟩
    rw [placed.of_eof kind] at h
    cases h
  | newline kind => exact absurd kind placed.laid.not_newline
  | dedent kind =>
    obtain ⟨width, outer, rfl, hRest⟩ := placed.of_dedent kind
    refine ⟨line, .nil, ?_⟩
    rintro _ _ ⟨⟩
    exact hRest
  | command heading _ ih =>
    obtain ⟨_, lineEnd, hLine, hEnd, rfl⟩ := commandLine_of_laid placed.laid heading
    obtain ⟨first, others, rfl, hFirstLine, hFirstColumn⟩ := hLine.header
    obtain ⟨column, behind, _, _, hMore, -, hRest⟩ :=
      placed.of_written hLine.written.2 (by simp [hEnd, TokenKind.isLayout])
    cases hMore
    obtain ⟨last, hStands, hAfter⟩ := ih hRest
    rw [← hFirstLine] at behind hStands
    exact ⟨last, .command (hFirstColumn.trans column) behind hStands, hAfter⟩
  | chain heading _ _ _ ihInner ihMore =>
    obtain ⟨colon, lineEnd, indent, schema, written, rfl, hName, -, -, hColon, hWellFormed, -, hEnd,
      hIndent, -⟩ := chainLine_of_takeHeading heading
    obtain ⟨column, behind, _, _, hMore, -, hBlock⟩ :=
      placed.of_written (written_heading hName hColon (written_modifiers hWellFormed))
        (by simp [hEnd, TokenKind.isLayout])
    cases hMore
    obtain ⟨width, wider, hBody⟩ := hBlock.of_indent hIndent
    obtain ⟨middle, inside, hAfter⟩ := ihInner hBody
    obtain ⟨last, hStands, hEnding⟩ := ihMore (hAfter _ _ rfl)
    refine ⟨last, ?_, hEnding⟩
    rw [column]
    refine .chain behind ?_ inside hStands
    rw [List.headD_cons]
    omega

/-- Where a split of two lists in a row falls. -/
theorem split_append {α : Type} {xs ys before after : List α} {a : α}
    (h : xs ++ ys = before ++ a :: after) :
    (∃ others, xs = before ++ a :: others) ∨
      ∃ before', before = xs ++ before' ∧ ys = before' ++ a :: after := by
  obtain h | ⟨others, rfl, hRest⟩ := List.append_eq_append_iff.mp h
  · exact .inr h
  · obtain ⟨rfl, hYs⟩ | ⟨others, rfl, -⟩ := List.cons_eq_append_iff.mp hRest
    · exact .inr ⟨[], by simp, hYs⟩
    · exact .inl ⟨others, rfl⟩

/-- A node is a step of a chain in front of it, and what is between them stands no further left. -/
def Owned (before : List Node) (n : Node) : Prop :=
  ∃ earlier slot line column steps later,
    before = earlier ++ .chain slot line column steps :: later ∧ n ∈ steps ∧ column < n.column ∧
      ∀ m ∈ later, n.column ≤ m.column

theorem Owned.append_left {before : List Node} {n : Node} (front : List Node)
    (h : Owned before n) : Owned (front ++ before) n := by
  obtain ⟨earlier, slot, line, column, steps, later, rfl, h⟩ := h
  exact ⟨front ++ earlier, slot, line, column, steps, later, by simp, h⟩

theorem Owned.nearest {before : List Node} {n : Node} (h : Owned before n) :
    ∃ slot line column steps,
      nearest before n.column = some (.chain slot line column steps) ∧ n ∈ steps := by
  obtain ⟨earlier, slot, line, column, steps, later, rfl, mem, hColumn, hLater⟩ := h
  refine ⟨slot, line, column, steps, ?_, mem⟩
  have hNone : later.filter (fun m => m.isChain && decide (m.column < n.column)) = [] :=
    List.filter_eq_nil_iff.mpr fun m hm => by simp [Int.not_lt.mpr (hLater m hm)]
  have hHere : (Node.chain slot line column steps).isChain = true ∧
      (Node.chain slot line column steps).column < n.column := ⟨rfl, hColumn⟩
  simp [Directive.nearest, List.filter_append, hNone, hHere]

namespace Stands

variable {column line last : Int} {nodes before after : List Node} {n : Node}

theorem columns (h : Stands column line nodes last) : ∀ n ∈ nodes, n.column = column := by
  induction h with
  | nil => simp
  | command here _ _ ih => exact List.forall_mem_cons.mpr ⟨here, ih⟩
  | chain _ _ _ _ _ ih => exact List.forall_mem_cons.mpr ⟨rfl, ih⟩

/-- Nothing among or below nodes stands further left than they do. -/
theorem columns_le (h : Stands column line nodes last) :
    ∀ n ∈ preorderAll nodes, column ≤ n.column := by
  induction h with
  | nil => simp [preorderAll]
  | command here _ _ ih =>
    rw [preorderAll, preorder, List.singleton_append]
    exact List.forall_mem_cons.mpr ⟨Int.le_of_eq here.symm, ih⟩
  | chain _ further _ _ ihInside ihRest =>
    rw [preorderAll, preorder, List.cons_append]
    refine List.forall_mem_cons.mpr ⟨Int.le_refl _, List.forall_mem_append.mpr ⟨?_, ihRest⟩⟩
    exact fun n hn => Int.le_trans (Int.le_of_lt further) (ihInside n hn)

theorem line_le_last (h : Stands column line nodes last) : line ≤ last := by
  induction h <;> omega

/-- What is among or below nodes begins between the lines that they take up. -/
theorem between (h : Stands column line nodes last) :
    ∀ n ∈ preorderAll nodes, line < n.line ∧ n.line ≤ last := by
  induction h with
  | nil => simp [preorderAll]
  | command _ behind rest ih =>
    have hRest := rest.line_le_last
    rw [preorderAll, preorder, List.singleton_append]
    refine List.forall_mem_cons.mpr ⟨⟨behind, hRest⟩, fun n hn => ?_⟩
    have hBetween := ih n hn
    omega
  | chain behind _ inside rest ihInside ihRest =>
    have hInside := inside.line_le_last
    have hRest := rest.line_le_last
    rw [preorderAll, preorder, List.cons_append]
    refine List.forall_mem_cons.mpr ⟨⟨behind, Int.le_trans hInside hRest⟩, fun n hn => ?_⟩
    obtain hn | hn := List.mem_append.mp hn
    · have hBetween := ihInside n hn
      omega
    · have hBetween := ihRest n hn
      omega

/-- Each line is behind those before it. -/
theorem lines (h : Stands column line nodes last) :
    (preorderAll nodes).Pairwise fun m n => m.line < n.line := by
  induction h with
  | nil => exact .nil
  | command _ _ rest ih =>
    rw [preorderAll, preorder, List.singleton_append]
    exact .cons (fun n hn => (rest.between n hn).1) ih
  | chain _ _ inside rest ihInside ihRest =>
    rw [preorderAll, preorder, List.cons_append]
    refine .cons (fun n hn => ?_) (List.pairwise_append.mpr ⟨ihInside, ihRest, fun m hm n hn => ?_⟩)
    · obtain hn | hn := List.mem_append.mp hn
      · exact (inside.between n hn).1
      · exact Int.lt_of_le_of_lt inside.line_le_last (rest.between n hn).1
    · exact Int.lt_of_le_of_lt (inside.between m hm).2 (rest.between n hn).1

theorem steps {slot : Option String} {line' column' : Int} {steps : List Node}
    (h : Stands column line nodes last)
    (mem : .chain slot line' column' steps ∈ preorderAll nodes) :
    ∃ inner, column' < inner ∧ ∀ n ∈ steps, n.column = inner := by
  induction h with
  | nil => simp [preorderAll] at mem
  | command _ _ _ ih =>
    rw [preorderAll, preorder, List.singleton_append] at mem
    exact ih ((List.mem_cons.mp mem).resolve_left (by rintro ⟨⟩))
  | chain _ further inside _ ihInside ihRest =>
    rw [preorderAll, preorder, List.cons_append] at mem
    obtain hHere | mem := List.mem_cons.mp mem
    · cases hHere
      exact ⟨_, further, inside.columns⟩
    · exact (List.mem_append.mp mem).elim ihInside ihRest

/-- A node below others is a step of the last chain in front of it that stands further left. -/
theorem owner (h : Stands column line nodes last)
    (split : preorderAll nodes = before ++ n :: after) : n ∈ nodes ∨ Owned before n := by
  induction h generalizing before after with
  | nil => simp [preorderAll] at split
  | command _ _ _ ih =>
    rw [preorderAll, preorder, List.singleton_append] at split
    obtain ⟨rfl, hHere⟩ | ⟨before, rfl, hRest⟩ := List.cons_eq_append_iff.mp split
    · cases hHere
      exact .inl List.mem_cons_self
    · exact (ih hRest).imp (List.mem_cons_of_mem _) (Owned.append_left [_])
  | chain _ further inside _ ihInside ihRest =>
    rw [preorderAll, preorder, List.cons_append] at split
    obtain ⟨rfl, hHere⟩ | ⟨before, rfl, hBelow⟩ := List.cons_eq_append_iff.mp split
    · cases hHere
      exact .inl List.mem_cons_self
    obtain ⟨others, hInside⟩ | ⟨before, rfl, hRest⟩ := split_append hBelow
    · refine .inr ((ihInside hInside).elim (fun mem => ?_) (Owned.append_left [_]))
      refine ⟨[], _, _, _, _, before, rfl, mem, ?_, fun m hm => ?_⟩
      · rw [inside.columns n mem]
        exact further
      · rw [inside.columns n mem]
        refine inside.columns_le m ?_
        rw [hInside]
        exact List.mem_append_left _ hm
    · exact (ihRest hRest).imp (List.mem_cons_of_mem _) (Owned.append_left (_ :: _))

end Stands

/-- Lines and columns of a tree, whose nodes are taken in the order of the text. As lines increase,
no node is there twice. -/
structure FollowsLayout (items : List Node) : Prop where
  top : ∀ n ∈ items, n.column = 1
  steps : ∀ slot line column steps, .chain slot line column steps ∈ preorderAll items →
    ∃ inner, column < inner ∧ ∀ n ∈ steps, n.column = inner
  lines : (preorderAll items).Pairwise fun m n => m.line < n.line
  owner : ∀ before n after, preorderAll items = before ++ n :: after → n ∉ items →
    ∃ slot line column steps,
      nearest before n.column = some (.chain slot line column steps) ∧ n ∈ steps

/-- **The tree of a script follows the layout of its text.** -/
theorem followsLayout_of_ofText {g : Grammar} {text : String} {s : Script}
    (parsed : Script.ofText g text = .ok s) : FollowsLayout s.items := by
  obtain ⟨ts, rest, hTokens, hReads⟩ := reads_of_ofText parsed
  obtain ⟨last, h, -⟩ := stands_of_reads hReads (placed_of_ofText hTokens)
  exact {
    top := h.columns
    steps := fun _ _ _ _ => h.steps
    lines := h.lines
    owner := fun before n after split below => ((h.owner split).resolve_left below).nearest }

theorem followsLayout_of_deep_chains :
    ∃ s, Script.ofText .builtin ("CHAIN:\n  SEARCH: \"tea\"\n\n  CHAIN:\n     # cups\n" ++
        "     CHAIN:\n       SEARCH: \"cup\"\nSEARCH: \"pot\"\n") = .ok s ∧
      (preorderAll s.items).map Node.line = [1, 2, 4, 6, 7, 8] ∧
      (preorderAll s.items).map Node.column = [1, 3, 3, 6, 8, 1] ∧ FollowsLayout s.items := by
  generalize hText : "CHAIN:\n  SEARCH: \"tea\"\n\n  CHAIN:\n     # cups\n" ++
    "     CHAIN:\n       SEARCH: \"cup\"\nSEARCH: \"pot\"\n" = text
  have hPlaces : ((Script.ofText .builtin text).toOption.map fun s =>
      ((preorderAll s.items).map Node.line, (preorderAll s.items).map Node.column)) =
      some ([1, 2, 4, 6, 7, 8], [1, 3, 3, 6, 8, 1]) := by
    subst hText
    decide +kernel
  obtain ⟨s, hParsed, hStands⟩ := Upshot.exists_of_map hPlaces
  obtain ⟨hLines, hColumns⟩ := Prod.mk.inj hStands
  exact ⟨s, hParsed, hLines, hColumns, followsLayout_of_ofText hParsed⟩

end Directive
