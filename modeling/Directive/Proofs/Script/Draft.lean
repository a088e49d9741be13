import Directive.Proofs.Modifier.Key
import Directive.Proofs.Script.Derivation
import Directive.Proofs.Token.Writing

/-!
# Drafts

A draft is a script before it is written down: the tree with the texts of its modifiers, which of
its strings are written as blocks, and how far the steps of each chain are indented.

* `Draft.write`, `Draft.writeAll`: the text;
* `Draft.node`, `Draft.nodes`: the tree, with the positions that the text gives it;
* `AllFit`: the drafts that a grammar allows.
-/

namespace Directive

/-- A string of an input, and whether it is written as a block. -/
structure Part where
  text : String
  block : Bool

namespace Part

def argument (p : Part) : WrittenArgument :=
  if p.block then ⟨blockQuote p.text.toList, [(.blockString, p.text)]⟩
  else ⟨quote p.text.toList, [(.quotedString, p.text)]⟩

/-- A block holds the text as it is, so it must not close early, and the text must have no line
ends that the lexer would join. -/
def Fits (p : Part) : Prop :=
  p.block = true → ¬ ClosesBlock p.text.toList ∧ ¬ ['\r', '\n'] <:+: p.text.toList

end Part

inductive InputDraft
  | literal (parts : List Part)
  | reference (phrase : String)

namespace InputDraft

def arguments : InputDraft → List WrittenArgument
  | .literal parts => parts.map Part.argument
  | .reference phrase => [⟨phrase.toList, [(.bareReference, phrase)]⟩]

def input : InputDraft → Input
  | .literal parts => .literal (parts.map Part.text)
  | .reference phrase => .reference phrase

/-- Whether the input can stand in a step with some number within its chain. -/
def Fits (step : Option Nat) : InputDraft → Prop
  | .literal parts => parts ≠ [] ∧ ∀ p ∈ parts, p.Fits
  | .reference phrase => IsPhrase phrase.toList ∧ ∃ k, step = some (k + 1)

end InputDraft

def modifierArgument (m : String × String) : WrittenArgument :=
  ⟨writeModifier m.1.toList m.2.toList, [(.modifierKey, m.1), (.modifierValue, m.2)]⟩

/-- A command with the texts of its modifiers. -/
structure CommandDraft where
  name : String
  input : Option InputDraft
  modifiers : List (String × String)

namespace CommandDraft

variable (d : CommandDraft)

def inputArguments : List WrittenArgument := (d.input.map InputDraft.arguments).getD []

def arguments : List WrittenArgument := d.inputArguments ++ d.modifiers.map modifierArgument

def write : List Char := writeLine d.name.toList d.arguments

def invocation (slot : Option String) (line column : Int) : Invocation :=
  ⟨d.name, d.input.map InputDraft.input,
    Table.ofList (d.modifiers.map fun m => (m.1, Setting.ofText m.2)), slot, line, column⟩

structure Fits (g : Grammar) (step : Option Nat) : Prop where
  identifier : isNameOf isNameStart isNameChar d.name.toList = true
  notChain : d.name ≠ chainCommand
  allowed : ∃ schema, g.find? d.name = some schema ∧
    (schema.requiresInput = true → d.input ≠ none) ∧
    ∀ m ∈ d.modifiers, schema.Accepts m.1 (.ofText m.2)
  inputFits : ∀ i ∈ d.input, i.Fits step
  keys : ∀ m ∈ d.modifiers, IsCanonicalKey m.1
  distinct : (d.modifiers.map Prod.fst).Nodup
  notBlank : ∀ m ∈ d.modifiers, Text.isBlankText m.2 = false

end CommandDraft

inductive Draft
  | command (c : CommandDraft)
  /-- A chain whose steps are indented by `deeper + 1` characters more than it is. -/
  | chain (deeper : Nat) (steps : List Draft)

namespace Draft

mutual

/-- The lines of a draft that is indented by `width` times `ch`. -/
def write (ch : Char) (width : Nat) : Draft → List Char
  | .command c => List.replicate width ch ++ (c.write ++ ['\n'])
  | .chain deeper steps =>
    List.replicate width ch ++
      (writeLine chainCommand.toList [] ++ '\n' :: writeAll ch (width + deeper + 1) steps)

def writeAll (ch : Char) (width : Nat) : List Draft → List Char
  | [] => []
  | d :: ds => write ch width d ++ writeAll ch width ds

end

mutual

/-- How many lines a draft takes. -/
def height : Draft → Nat
  | .command c => c.write.count '\n' + 1
  | .chain _ steps => heights steps + 1

def heights : List Draft → Nat
  | [] => 0
  | d :: ds => height d + heights ds

end

/-- The slot that a node with some command has as a step of a chain. -/
def slot (g : Grammar) (inChain : Bool) (command : String) : Option String :=
  if inChain then (g.find? command).map Schema.label else none

mutual

/-- The tree of a draft that starts on a line and is indented by `width` characters. -/
def node (g : Grammar) (inChain : Bool) (line : Int) (width : Nat) : Draft → Node
  | .command c => .invocation (c.invocation (slot g inChain c.name) line (1 + width))
  | .chain deeper steps =>
    .chain (slot g inChain chainCommand) line (1 + width)
      (nodes g true (line + 1) (width + deeper + 1) steps)

def nodes (g : Grammar) (inChain : Bool) (line : Int) (width : Nat) : List Draft → List Node
  | [] => []
  | d :: ds => node g inChain line width d :: nodes g inChain (line + height d) width ds

end

/-- Whether a grammar allows some items, or the steps of a chain from some step on. -/
inductive AllFit (g : Grammar) : Option Nat → List Draft → Prop
  | nil {step : Option Nat} : AllFit g step []
  | command {step : Option Nat} {c : CommandDraft} {ds : List Draft} (first : c.Fits g step)
      (rest : AllFit g (step.map (· + 1)) ds) : AllFit g step (.command c :: ds)
  | chain {step : Option Nat} {deeper : Nat} {steps ds : List Draft} {schema : Schema}
      (known : g.find? chainCommand = some schema) (nonempty : steps ≠ [])
      (inner : AllFit g (some 0) steps) (rest : AllFit g (step.map (· + 1)) ds) :
      AllFit g step (.chain deeper steps :: ds)

end Draft

end Directive
