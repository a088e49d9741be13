import Mathlib.Data.List.Forall2
import Directive.Proofs.Script.Recognition
import Directive.Proofs.Token.Moved

/-!
# Scripts that are written somewhere else

A parse looks at positions only to write them into the tree.

* `Node.relocate`: a tree with other positions;
* `CommandLine.relocate`: the line of a command, written somewhere else;
* `MovesWith`, `reads_moved`: what is read from tokens that were moved, in front of any others.
-/

namespace Directive

open ParseContext (WrittenModifier)

def Invocation.relocate (place : Int → Int → Int × Int) (i : Invocation) : Invocation :=
  { i with line := (place i.line i.column).1, column := (place i.line i.column).2 }

namespace Node

mutual

/-- A node, and those below it, at other positions. -/
def relocate (place : Int → Int → Int × Int) : Node → Node
  | .invocation i => .invocation (i.relocate place)
  | .chain slot line column steps =>
    .chain slot (place line column).1 (place line column).2 (relocateAll place steps)

def relocateAll (place : Int → Int → Int × Int) : List Node → List Node
  | [] => []
  | n :: ns => relocate place n :: relocateAll place ns

end

theorem relocateAll_eq_map (place : Int → Int → Int × Int) (nodes : List Node) :
    relocateAll place nodes = nodes.map (relocate place) := by
  induction nodes with
  | nil => rfl
  | cons n nodes ih => rw [relocateAll, ih, List.map_cons]

mutual

theorem relocate_downBy_zero : ∀ n : Node, n.relocate (downBy 0) = n
  | .invocation i => by simp [relocate, Invocation.relocate, downBy]
  | .chain slot line column steps => by
    rw [relocate, relocateAll_downBy_zero steps]
    simp [downBy]

theorem relocateAll_downBy_zero : ∀ nodes : List Node, relocateAll (downBy 0) nodes = nodes
  | [] => rfl
  | n :: nodes => by rw [relocateAll, relocate_downBy_zero n, relocateAll_downBy_zero nodes]

end

end Node

variable {place : Int → Int → Int × Int}

namespace Token

@[simp]
theorem kind_relocate (t : Token) : (t.relocate place).kind = t.kind := rfl

@[simp]
theorem text_relocate (t : Token) : (t.relocate place).text = t.text := rfl

@[simp]
theorem line_relocate (t : Token) : (t.relocate place).line = (place t.line t.column).1 := rfl

@[simp]
theorem column_relocate (t : Token) : (t.relocate place).column = (place t.line t.column).2 := rfl

theorem MovesTo.kind {t t' : Token} (h : t.MovesTo place t') : t'.kind = t.kind := by
  obtain rfl | ⟨hKind, hKind'⟩ := h
  · rfl
  · rw [hKind, hKind']

end Token

theorem forall₂_append_left {α β : Type} {R : α → β → Prop} {front back : List α} {all : List β}
    (h : List.Forall₂ R (front ++ back) all) : ∃ front' back', all = front' ++ back' ∧
      List.Forall₂ R front front' ∧ List.Forall₂ R back back' := by
  induction front generalizing all with
  | nil => exact ⟨[], all, rfl, .nil, h⟩
  | cons a front ih =>
    cases h with
    | cons hFirst hRest =>
      obtain ⟨front', back', rfl, hFront, hBack⟩ := ih hRest
      exact ⟨_ :: front', back', rfl, .cons hFirst hFront, hBack⟩

/-- What stands on a line moves as it is told. -/
theorem movesTo_line {line others whole : List Token} (written : Written line)
    (h : List.Forall₂ (Token.MovesTo place) (line ++ others) whole) : ∃ others',
      whole = line.map (Token.relocate place) ++ others' ∧
        List.Forall₂ (Token.MovesTo place) others others' := by
  induction line generalizing whole with
  | nil => exact ⟨whole, rfl, h⟩
  | cons t line ih =>
    obtain ⟨hFirst, hLine⟩ := List.forall_mem_cons.mp written
    cases h with
    | cons hMoves hRest =>
      obtain ⟨others', rfl, hOthers⟩ := ih hLine hRest
      have hDedent : t.kind ≠ .dedent := fun hDedent => by
        simp [hDedent, TokenKind.isLayout] at hFirst
      rw [hMoves.resolve_right fun h => hDedent h.1]
      exact ⟨others', rfl, hOthers⟩

/-! ### Lines -/

namespace ParseContext.WrittenModifier

def relocate (place : Int → Int → Int × Int) (w : WrittenModifier) : WrittenModifier :=
  ⟨w.key.relocate place, w.value.relocate place⟩

theorem tokens_relocate (ws : List WrittenModifier) :
    (ws.map (relocate place)).flatMap (·.tokens) =
      (ws.flatMap (·.tokens)).map (Token.relocate place) := by
  rw [List.flatMap_map, List.map_flatMap]
  rfl

@[simp]
theorem name_relocate (w : WrittenModifier) : (w.relocate place).name = w.name := rfl

@[simp]
theorem setting_relocate (w : WrittenModifier) : (w.relocate place).setting = w.setting := rfl

theorem lastSettings_relocate (ws : List WrittenModifier) :
    lastSettings (ws.map (relocate place)) = lastSettings ws := by
  induction ws with
  | nil => rfl
  | cons w ws ih =>
    have hAgain : (ws.map (relocate place)).any (·.name = w.name) = ws.any (·.name = w.name) := by
      rw [List.any_map]
      exact List.any_congr rfl fun v => by rw [Function.comp_apply, name_relocate]
    rw [List.map_cons, lastSettings, lastSettings, name_relocate, setting_relocate, hAgain, ih]

theorem lastTable_relocate (ws : List WrittenModifier) :
    lastTable (ws.map (relocate place)) = lastTable ws :=
  Table.ext (lastSettings_relocate ws)

theorem WellFormed.relocate {w : WrittenModifier} (h : w.WellFormed) :
    (w.relocate place).WellFormed := ⟨h.key, h.value, h.notBlank⟩

end ParseContext.WrittenModifier

open ParseContext
open ParseContext.WrittenModifier (tokens_relocate lastSettings_relocate lastTable_relocate)

theorem InputTokens.relocate {step : Option Nat} {ts : List Token} {input : Option Input}
    (h : InputTokens step ts input) : InputTokens step (ts.map (Token.relocate place)) input := by
  cases h with
  | absent => exact .absent
  | literal nonempty strings =>
    have hTexts : ts.map Token.text = (ts.map (Token.relocate place)).map Token.text := by
      rw [List.map_map]
      rfl
    rw [hTexts]
    exact .literal (by simpa using nonempty) (by simpa using strings)
  | reference kind => exact .reference kind

theorem CommandLine.relocate {g : Grammar} {step : Option Nat} {line : List Token} {i : Invocation}
    (h : CommandLine g step line i) :
    CommandLine g step (line.map (Token.relocate place)) (i.relocate place) := by
  obtain @⟨header, colon, schema, inputTokens, input, written, name, notChain, known, mark, given,
    needed, wellFormed, accepted⟩ := h
  have hWellFormed : ∀ w ∈ written.map (WrittenModifier.relocate place), w.WellFormed := by
    intro w' hw'
    obtain ⟨w, hw, rfl⟩ := List.mem_map.mp hw'
    exact (wellFormed w hw).relocate
  have hGiven : InputTokens step (inputTokens.map (Token.relocate place)) input := given.relocate
  rw [← @lastSettings_relocate place] at accepted
  have hLine := @CommandLine.line g step (header.relocate place) (colon.relocate place) schema
    _ input _ name notChain known mark hGiven needed hWellFormed accepted
  rw [tokens_relocate, lastTable_relocate] at hLine
  rw [List.map_cons, List.map_cons, List.map_append]
  exact hLine

namespace ChainLine

variable {g : Grammar} {line : List Token} {header : Token} {schema : Schema}

theorem written (h : ChainLine g line header schema) : line ≠ [] ∧ Written line := by
  obtain @⟨header, colon, schema, modifiers, name, -, -, mark, wellFormed, -⟩ := h
  exact ⟨List.cons_ne_nil _ _, written_heading name mark (written_modifiers wellFormed)⟩

theorem relocate (h : ChainLine g line header schema) :
    ChainLine g (line.map (Token.relocate place)) (header.relocate place) schema := by
  obtain @⟨header, colon, schema, written, name, isChain, known, mark, wellFormed, accepted⟩ := h
  rw [← @lastSettings_relocate place] at accepted
  rw [List.map_cons, List.map_cons, ← tokens_relocate]
  refine .line name isChain known mark (fun w' hw' => ?_) accepted
  obtain ⟨w, hw, rfl⟩ := List.mem_map.mp hw'
  exact (wellFormed w hw).relocate

end ChainLine

/-- Wherever tokens go, and whatever stands behind them then, the nodes are read from them with their
new places. -/
def MovesWith (place : Int → Int → Int × Int) (c' : ParseContext) (step : Option Nat)
    (body : List Token) (nodes : List Node) : Prop :=
  ∀ body' ending rest more, List.Forall₂ (Token.MovesTo place) body body' →
    (∀ other : Option Nat, other.isSome = step.isSome → Reads c' other ending more rest) →
    Reads c' step (body' ++ ending) (nodes.map (Node.relocate place) ++ more) rest

namespace MovesWith

variable {c' : ParseContext} {step : Option Nat} {line body : List Token} {lineEnd : Token}
  {nodes : List Node}

theorem nil : MovesWith place c' step [] [] := by
  intro body' ending rest more hBody hNext
  cases hBody
  exact hNext step rfl

theorem command {i : Invocation} (hLine : CommandLine c'.grammar step line i)
    (hEnd : lineEnd.kind = .newline) (h : MovesWith place c' (step.map (· + 1)) body nodes) :
    MovesWith place c' step (line ++ lineEnd :: body) (.invocation i :: nodes) := by
  intro whole ending rest more hWhole hNext
  obtain ⟨_, rfl, hOthers⟩ := movesTo_line hLine.written.2 hWhole
  obtain ⟨lineEnd', body', hEnd', hBody', rfl⟩ := List.forall₂_cons_left_iff.mp hOthers
  rw [List.append_assoc, List.cons_append]
  exact .command (takeHeading_of_commandLine hLine.relocate (hEnd'.kind.trans hEnd))
    (h body' ending rest more hBody' fun other hOther => hNext other (by simpa using hOther))

theorem chain {header indent dedent : Token} {schema : Schema} {inside : List Token}
    {steps : List Node} (hLine : ChainLine c'.grammar line header schema)
    (hEnd : lineEnd.kind = .newline) (hIndent : indent.kind = .indent)
    (hInside : MovesWith place c' (some 0) inside steps) (nonempty : steps ≠ [])
    (hDedent : dedent.kind = .dedent) (h : MovesWith place c' (step.map (· + 1)) body nodes) :
    MovesWith place c' step (line ++ lineEnd :: indent :: (inside ++ dedent :: body))
      (.chain (step.map fun _ => schema.label) header.line header.column steps :: nodes) := by
  intro whole ending rest more hWhole hNext
  obtain ⟨_, rfl, hOpening⟩ := movesTo_line hLine.written.2 hWhole
  obtain ⟨lineEnd', _, hEnd', hBlock', rfl⟩ := List.forall₂_cons_left_iff.mp hOpening
  obtain ⟨indent', _, hIndent', hSteps', rfl⟩ := List.forall₂_cons_left_iff.mp hBlock'
  obtain ⟨inside', _, rfl, hInside', hOthers⟩ := forall₂_append_left hSteps'
  obtain ⟨dedent', body', hDedent', hBody', rfl⟩ := List.forall₂_cons_left_iff.mp hOthers
  have hTaken : c'.takeHeading step (line.map (Token.relocate place) ++ lineEnd' :: indent' ::
      (inside' ++ dedent' :: (body' ++ ending))) = _ :=
    takeHeading_of_chainLine hLine.relocate (hEnd'.kind.trans hEnd) (hIndent'.kind.trans hIndent)
  have hSteps : Reads c' (some 0) (inside' ++ dedent' :: (body' ++ ending)) _ _ :=
    hInside inside' _ _ [] hInside' fun other hOther => by
      obtain ⟨k, rfl⟩ := Option.isSome_iff_exists.mp hOther
      exact .dedent (hDedent'.kind.trans hDedent)
  have hRest := h body' ending rest more hBody' fun other hOther =>
    hNext other (by simpa using hOther)
  simpa [Node.relocate, Node.relocateAll_eq_map] using
    Reads.chain hTaken hSteps (by simpa using nonempty) hRest

end MovesWith

/-- **A block that was moved.** Where it stands and what follows it only shows in the places of its
nodes. -/
theorem reads_moved {c c' : ParseContext} {step : Option Nat} {ts rest : List Token}
    {nodes : List Node} {opens : Bool} {depth : Nat} (h : Reads c step ts nodes rest)
    (same : c'.grammar = c.grammar) (laid : Laid opens depth ts)
    (level : step = none ↔ depth = 0) :
    ∃ body ending, ts = body ++ ending ∧ BlockEnd step depth ending rest ∧
      MovesWith place c' step body nodes := by
  induction h generalizing opens depth with
  | nothing => exact absurd rfl laid.ne_nil
  | eof kind =>
    obtain ⟨rfl, rfl⟩ := laid.of_eof kind
    rw [level.mpr rfl]
    exact ⟨[], _, rfl, .input kind, .nil⟩
  | newline kind => exact absurd kind laid.not_newline
  | dedent kind =>
    obtain ⟨outer, rfl, hRest⟩ := laid.of_dedent kind
    exact ⟨[], _, rfl, .chain kind hRest, .nil⟩
  | command heading _ ih =>
    obtain ⟨line, lineEnd, hLine, hEnd, rfl⟩ := commandLine_of_laid laid heading
    obtain ⟨nonempty, written⟩ := hLine.written
    have hRest := laid.behind_line nonempty written hEnd
    obtain ⟨body, ending, rfl, hEnding, hMoves⟩ := ih hRest (by simpa using level)
    rw [← same] at hLine
    exact ⟨line ++ lineEnd :: body, ending, by simp, hEnding.of_next, hMoves.command hLine hEnd⟩
  | chain heading _ nonempty _ ihInner ihMore =>
    obtain ⟨colon, lineEnd, indent, schema, modifiers, rfl, hName, hChain, hKnown, hColon,
      hWellFormed, hAccepted, hEnd, hIndent, rfl⟩ := chainLine_of_takeHeading heading
    have hLine := ChainLine.line hName hChain hKnown hColon hWellFormed hAccepted
    obtain ⟨written, layout⟩ := hLine.written
    have hBlock := laid.behind_line written layout hEnd
    obtain ⟨inside, _, rfl, hClosing, hInside⟩ := ihInner (hBlock.of_indent hIndent) (by simp)
    cases hClosing with
    | @chain _ _ dedent _ hDedent hAfter =>
      obtain ⟨body, ending, rfl, hEnding, hMoves⟩ := ihMore hAfter (by simpa using level)
      rw [← same] at hLine
      exact ⟨_ ++ lineEnd :: indent :: (inside ++ dedent :: body), ending, by simp,
        hEnding.of_next, .chain hLine hEnd hIndent hInside nonempty hDedent hMoves⟩

end Directive
