import Directive.Script.Parser

/-!
# The grammar of scripts

What a list of tokens has to look like, said without a parser:

    script     := (end of line | chain | command)* end of input
    chain      := CHAIN : end of line, indent, (chain | command)+, dedent
    command    := name : input? modifier* end of line
    input      := string+ | reference
    modifier   := key value

* `CommandLine`: the line of a command, as the schemas of a grammar allow it;
* `Block`: the items of a script, or the steps of a chain from some step on;
* `Derivation`: a whole script.

Each rule carries what has to hold beside it, and the tree that it makes.
-/

namespace Directive

open ParseContext (WrittenModifier)

namespace ParseContext.WrittenModifier

variable (w : WrittenModifier)

def tokens : List Token := [w.key, w.value]

def name : String := canonicalKey w.key.text

def setting : Setting := .ofText w.value.text

structure WellFormed : Prop where
  key : w.key.kind = .modifierKey
  value : w.value.kind = .modifierValue
  notBlank : Text.isBlankText w.value.text = false

end ParseContext.WrittenModifier

/-- The last setting of each name, in the order in which these stand. -/
def lastSettings : List WrittenModifier → List (String × Setting)
  | [] => []
  | w :: ws =>
    if ws.any (·.name = w.name) then lastSettings ws else (w.name, w.setting) :: lastSettings ws

theorem mem_keys_lastSettings {ws : List WrittenModifier} {k : String} :
    k ∈ (lastSettings ws).map Prod.fst ↔ ∃ w ∈ ws, w.name = k := by
  induction ws with
  | nil => simp [lastSettings]
  | cons w ws ih =>
    unfold lastSettings
    split
    · rename_i again
      rw [ih]
      constructor
      · rintro ⟨v, hv, rfl⟩
        exact ⟨v, List.mem_cons_of_mem _ hv, rfl⟩
      · rintro ⟨v, hv, rfl⟩
        rcases List.mem_cons.mp hv with rfl | hv
        · simpa using again
        · exact ⟨v, hv, rfl⟩
    · simp only [List.map_cons, List.mem_cons, ih]
      constructor
      · rintro (rfl | ⟨v, hv, rfl⟩)
        · exact ⟨w, .inl rfl, rfl⟩
        · exact ⟨v, .inr hv, rfl⟩
      · rintro ⟨v, rfl | hv, rfl⟩
        · exact .inl rfl
        · exact .inr ⟨v, hv, rfl⟩

theorem nodup_keys_lastSettings (ws : List WrittenModifier) :
    ((lastSettings ws).map Prod.fst).Nodup := by
  induction ws with
  | nil => simp [lastSettings]
  | cons w ws ih =>
    unfold lastSettings
    split
    · exact ih
    · rename_i once
      rw [List.map_cons, List.nodup_cons, mem_keys_lastSettings]
      refine ⟨?_, ih⟩
      simpa using once

def lastTable (ws : List WrittenModifier) : Table Setting :=
  ⟨lastSettings ws, nodup_keys_lastSettings ws⟩

/-- Whether a modifier is declared and accepts the setting. -/
def Schema.Accepts (s : Schema) (key : String) (value : Setting) : Prop :=
  ∃ d, s.modifiers.get? key = some d ∧ d.refusal? value = none

/-- An input; `step` is the number of the step within its chain, if there is one. -/
inductive InputTokens : Option Nat → List Token → Option Input → Prop
  | absent {step : Option Nat} : InputTokens step [] none
  | literal {step : Option Nat} {ts : List Token} (nonempty : ts ≠ [])
      (strings : ∀ t ∈ ts, t.kind.isString = true) :
      InputTokens step ts (some (.literal (ts.map Token.text)))
  | reference {k : Nat} {t : Token} (kind : t.kind = .bareReference) :
      InputTokens (some (k + 1)) [t] (some (.reference t.text))

/-- A command and the tokens of its line, without the one that ends it. -/
inductive CommandLine (g : Grammar) (step : Option Nat) : List Token → Invocation → Prop
  | line {header colon : Token} {schema : Schema} {inputTokens : List Token}
      {input : Option Input} {written : List WrittenModifier}
      (name : header.kind = .commandName) (notChain : header.text ≠ chainCommand)
      (known : g.find? header.text = some schema)
      (mark : colon.kind = .colon)
      (given : InputTokens step inputTokens input)
      (needed : schema.requiresInput = true → input ≠ none)
      (wellFormed : ∀ w ∈ written, w.WellFormed)
      (accepted : ∀ m ∈ lastSettings written, schema.Accepts m.1 m.2) :
      CommandLine g step (header :: colon :: (inputTokens ++ written.flatMap (·.tokens)))
        ⟨header.text, input, lastTable written, step.map fun _ => schema.label, header.line,
          header.column⟩

/-- The nodes that some tokens make: items of a script, or the steps of a chain, of which `step`
is the first. Only between items may a line be empty. -/
inductive Block (g : Grammar) : Option Nat → List Token → List Node → Prop
  | nil {step : Option Nat} : Block g step [] []
  | emptyLine {t : Token} {ts : List Token} {nodes : List Node} (kind : t.kind = .newline)
      (rest : Block g none ts nodes) : Block g none (t :: ts) nodes
  | command {step : Option Nat} {line ts : List Token} {lineEnd : Token} {i : Invocation}
      {nodes : List Node} (first : CommandLine g step line i) (ended : lineEnd.kind = .newline)
      (rest : Block g (step.map (· + 1)) ts nodes) :
      Block g step (line ++ lineEnd :: ts) (.invocation i :: nodes)
  | chain {step : Option Nat} {header colon lineEnd indent dedent : Token} {schema : Schema}
      {body ts : List Token} {steps nodes : List Node}
      (name : header.kind = .commandName) (isChain : header.text = chainCommand)
      (known : g.find? chainCommand = some schema)
      (mark : colon.kind = .colon) (ended : lineEnd.kind = .newline)
      (opened : indent.kind = .indent) (closed : dedent.kind = .dedent)
      (nonempty : steps ≠ []) (inner : Block g (some 0) body steps)
      (rest : Block g (step.map (· + 1)) ts nodes) :
      Block g step (header :: colon :: lineEnd :: indent :: (body ++ dedent :: ts))
        (.chain (step.map fun _ => schema.label) header.line header.column steps :: nodes)

/-- A script and its tokens. -/
inductive Derivation (g : Grammar) : List Token → Script → Prop
  | script {ts : List Token} {last : Token} {items : List Node} (block : Block g none ts items)
      (ended : last.kind = .eof) : Derivation g (ts ++ [last]) ⟨items⟩

end Directive
