import Directive.Modifier.Key
import Directive.Script.Validation
import Directive.Text.Similar
import Directive.Token.Lexer

/-!
# From tokens to scripts

    script     := (end of line | chain | command)* end of input
    chain      := CHAIN : end of line, indent, (command | chain)+, dedent
    command    := name : input? modifier* end of line
    input      := string+ | reference
    modifier   := key value

Names and modifiers are held against a grammar on the way, and the first fault ends the parse.

* `takeInput`, `takeModifiers`, `takeHeading`: what stands on one line;
* `takeSteps`, `takeItems`: the steps of a chain, and the items of a script;
* `Script.ofTokens`, `Script.ofText`: whole scripts.

A parser gives back the tokens after what it took; in a fault it gives back those that it stopped
at. Of a repeated modifier only the last one counts, in its own place.
-/

namespace Directive

/-- A fault, and the tokens that were still ahead. -/
structure Stop where
  fault : Fault
  ahead : List Token

/-- The first token; where there is none, the input has ended. -/
def frontToken (ts : List Token) : Token := ts.headD ⟨.eof, "", 0, 0⟩

def nextKind (ts : List Token) : TokenKind := (frontToken ts).kind

/-- What a parser knows: the grammar, and the lines of the text for faults to quote. -/
structure ParseContext where
  grammar : Grammar
  lines : List String

namespace ParseContext

variable (c : ParseContext)

def placeOf (t : Token) (command : Option String) : Place :=
  { line := some t.line, column := some t.column, sourceLine := lineAt? c.lines t.line, command }

def stop {α : Type} (p : ParseProblem) (t : Token) (ahead : List Token) : Except Stop α :=
  .error ⟨⟨.parse p, c.placeOf t none⟩, ahead⟩

def suggest (name : String) : Suggestion :=
  let capitals := Text.upper name
  if c.grammar.has capitals then .capitals capitals
  else match Text.closest? capitals c.grammar.names with
    | some similar => .similar similar
    | none => .none

/-- The strings at the front. -/
def takeStrings : List Token → List String × List Token
  | [] => ([], [])
  | t :: ts =>
    if t.kind.isString then
      let (parts, rest) := takeStrings ts
      (t.text :: parts, rest)
    else ([], t :: ts)

/-- The input at the front. `step` is the number of the step within its chain, if there is one. -/
def takeInput (step : Option Nat) (ts : List Token) : Except Stop (Option Input × List Token) :=
  match takeStrings ts with
  | ([], _) =>
    match ts with
    | t :: rest =>
      if t.kind = .bareReference then
        match step with
        | none => c.stop (.referenceOutsideChain t.text) t rest
        | some 0 => c.stop (.referenceInFirstStep t.text) t rest
        | some _ => .ok (some (.reference t.text), rest)
      else .ok (none, ts)
    | [] => .ok (none, ts)
  | (parts, rest) =>
    let t := frontToken rest
    if t.kind = .bareReference then c.stop (.textAfterInput t.text) t rest
    else .ok (some (.literal parts), rest)

/-- A modifier as written. -/
structure WrittenModifier where
  key : Token
  value : Token

/-- The modifiers at the front; each has a value that is not blank. -/
def takeWritten : List Token → Except Stop (List WrittenModifier × List Token)
  | [] => .ok ([], [])
  | key :: ts =>
    if key.kind = .modifierKey then
      match ts with
      | value :: rest =>
        if value.kind = .modifierValue then
          if Text.isBlankText value.text then c.stop (.blankValue key.text) value rest
          else match takeWritten rest with
            | .ok (more, rest) => .ok (⟨key, value⟩ :: more, rest)
            | .error e => .error e
        else c.stop (.noValue key.text) key ts
      | [] => c.stop (.noValue key.text) key ts
    else .ok ([], key :: ts)

def settings (written : List WrittenModifier) : Table Setting :=
  written.foldl (fun t w => t.move (canonicalKey w.key.text) (.ofText w.value.text)) .empty

/-- Where the last modifier with some key stands. -/
def placeOfKey (command : String) (written : List WrittenModifier) (key : String) : Place :=
  match written.reverse.find? fun w => canonicalKey w.key.text = key with
  | some w => c.placeOf w.key (some command)
  | none => .unknown

/-- The modifiers at the front, as the schema accepts them. -/
def takeModifiers (schema : Schema) (command : String) (ts : List Token) :
    Except Stop (Table Setting × List Token) :=
  match c.takeWritten ts with
  | .error e => .error e
  | .ok (written, rest) =>
    match schema.validateAll (settings written) (c.placeOfKey command written) with
    | .ok modifiers => .ok (modifiers, rest)
    | .error fault => .error ⟨fault, rest⟩

/-- The tokens after the end of the line. The end of the input is left where it is. -/
def takeLineEnd (command : String) (ts : List Token) : Except Stop (List Token) :=
  match nextKind ts with
  | .newline => .ok (ts.drop 1)
  | .eof => .ok ts
  | _ => c.stop (.unexpected (frontToken ts).describe command) (frontToken ts) ts

/-- What stands on a line: a command, or the start of a chain. -/
inductive Heading
  | command (i : Invocation)
  | chain (header : Token) (slot : Option String)

/-- The name of a registered command with its colon. -/
def takeName (ts : List Token) : Except Stop ((Token × Schema) × List Token) :=
  let header := frontToken ts
  if header.kind = .commandName then
    let rest := ts.drop 1
    match c.grammar.find? header.text with
    | none => c.stop (.unknownCommand header.text (c.suggest header.text)) header rest
    | some schema =>
      if nextKind rest = .colon then .ok ((header, schema), rest.drop 1)
      else c.stop (.noColon header.text) (frontToken rest) rest
  else c.stop (.noHeader header.describe) header ts

/-- The rest of the line that opens a chain, and the indent of its first step. -/
def takeChainStart (header : Token) (schema : Schema) (slot : Option String) (ts : List Token) :
    Except Stop (Heading × List Token) :=
  let t := frontToken ts
  if t.kind.isString || t.kind = .bareReference then c.stop .chainWithInput t ts
  else do
    let (_, ts) ← c.takeModifiers schema header.text ts
    let ts ← c.takeLineEnd chainCommand ts
    if nextKind ts = .indent then .ok (.chain header slot, ts.drop 1)
    else c.stop .chainWithoutBlock header ts

/-- The rest of the line of a command. -/
def takeCommand (header : Token) (schema : Schema) (slot : Option String) (step : Option Nat)
    (ts : List Token) : Except Stop (Heading × List Token) := do
  let (input, ts) ← c.takeInput step ts
  if input.isNone && schema.requiresInput then
    c.stop (.noInput header.text) (frontToken ts) ts
  else
    let (modifiers, ts) ← c.takeModifiers schema header.text ts
    let ts ← c.takeLineEnd header.text ts
    .ok (.command ⟨header.text, input, modifiers, slot, header.line, header.column⟩, ts)

def takeHeading (step : Option Nat) (ts : List Token) : Except Stop (Heading × List Token) :=
  match c.takeName ts with
  | .error e => .error e
  | .ok ((header, schema), ts) =>
    let slot := step.map fun _ => schema.label
    if header.text = chainCommand then c.takeChainStart header schema slot ts
    else c.takeCommand header schema slot step ts

theorem takeStrings_le (ts : List Token) : (takeStrings ts).2.length ≤ ts.length := by
  fun_induction takeStrings ts with
  | case1 => simp
  | case2 t ts h parts rest hrest ih => simp_all; omega
  | case3 => simp

theorem takeInput_le {step : Option Nat} {ts rest : List Token} {input : Option Input}
    (h : c.takeInput step ts = .ok (input, rest)) : rest.length ≤ ts.length := by
  have hStrings := takeStrings_le ts
  unfold takeInput stop at h
  grind

theorem takeWritten_le {ts rest : List Token} {written : List WrittenModifier}
    (h : c.takeWritten ts = .ok (written, rest)) : rest.length ≤ ts.length := by
  fun_induction takeWritten c ts generalizing written rest <;> grind [stop]

theorem takeModifiers_le {schema : Schema} {command : String} {ts rest : List Token}
    {modifiers : Table Setting} (h : c.takeModifiers schema command ts = .ok (modifiers, rest)) :
    rest.length ≤ ts.length := by
  unfold takeModifiers at h
  have := @takeWritten_le c ts
  grind

theorem takeLineEnd_le {command : String} {ts rest : List Token}
    (h : c.takeLineEnd command ts = .ok rest) : rest.length ≤ ts.length := by
  unfold takeLineEnd stop at h
  grind

theorem takeName_lt {ts rest : List Token} {found : Token × Schema}
    (h : c.takeName ts = .ok (found, rest)) : rest.length < ts.length := by
  unfold takeName stop nextKind frontToken at h
  cases ts <;> grind

theorem takeChainStart_le {header : Token} {schema : Schema} {slot : Option String}
    {ts rest : List Token} {heading : Heading}
    (h : c.takeChainStart header schema slot ts = .ok (heading, rest)) :
    rest.length ≤ ts.length := by
  unfold takeChainStart stop at h
  simp only [bind, Except.bind] at h
  have := @takeModifiers_le c
  have := @takeLineEnd_le c
  grind

theorem takeCommand_le {header : Token} {schema : Schema} {slot : Option String}
    {step : Option Nat} {ts rest : List Token} {heading : Heading}
    (h : c.takeCommand header schema slot step ts = .ok (heading, rest)) :
    rest.length ≤ ts.length := by
  unfold takeCommand stop at h
  simp only [bind, Except.bind] at h
  have := @takeInput_le c
  have := @takeModifiers_le c
  have := @takeLineEnd_le c
  grind

theorem takeHeading_lt {step : Option Nat} {ts rest : List Token} {heading : Heading}
    (h : c.takeHeading step ts = .ok (heading, rest)) : rest.length < ts.length := by
  unfold takeHeading at h
  have := @takeName_lt c
  have := @takeChainStart_le c
  have := @takeCommand_le c
  grind

/-- The nodes of a block and the tokens after it. `step` is the number that the next node has
within its chain; without one the nodes are the items of the script. -/
def takeNodes (step : Option Nat) (ts : List Token) :
    Except Stop { p : List Node × List Token // p.2.length ≤ ts.length } :=
  match ts with
  | [] => .ok ⟨([], []), by simp⟩
  | t :: rest =>
    match t.kind, step with
    | .eof, _ => .ok ⟨([], t :: rest), by simp⟩
    | .newline, _ =>
      match takeNodes step rest with
      | .error e => .error e
      | .ok ⟨p, h⟩ => .ok ⟨p, by simp; omega⟩
    | .dedent, some _ => .ok ⟨([], rest), by simp⟩
    | .dedent, none => c.stop .strayDedent t (t :: rest)
    | .indent, some _ => c.stop .strayIndentInChain t (t :: rest)
    | .indent, none => c.stop .strayIndent t (t :: rest)
    | _, _ =>
      match hHeading : c.takeHeading step (t :: rest) with
      | .error e => .error e
      | .ok (.command i, after) =>
        have := c.takeHeading_lt hHeading
        match takeNodes (step.map (· + 1)) after with
        | .error e => .error e
        | .ok ⟨(nodes, last), h⟩ =>
          .ok ⟨(.invocation i :: nodes, last), by dsimp only at h ⊢; omega⟩
      | .ok (.chain header slot, after) =>
        have := c.takeHeading_lt hHeading
        match takeNodes (some 0) after with
        | .error e => .error e
        | .ok ⟨(steps, after'), h⟩ =>
          if steps.isEmpty then c.stop .chainWithoutSteps header after'
          else match takeNodes (step.map (· + 1)) after' with
            | .error e => .error e
            | .ok ⟨(nodes, last), h'⟩ =>
              .ok ⟨(.chain slot header.line header.column steps :: nodes, last), by
                dsimp only at h h' ⊢; omega⟩
termination_by ts.length
decreasing_by
  all_goals simp_all
  all_goals omega

end ParseContext

namespace Script

/-- The script that some tokens make. Faults quote the given lines. -/
def ofTokens (grammar : Grammar) (lines : List String) (tokens : List Token) :
    Except Stop Script :=
  match ParseContext.takeNodes ⟨grammar, lines⟩ none tokens with
  | .ok ⟨(items, _), _⟩ => .ok ⟨items⟩
  | .error e => .error e

/-- The lines of a text that faults quote. An empty text has none. -/
def quotableLines (text : String) : List String := if text.isEmpty then [] else Text.lines text

def ofText (grammar : Grammar) (text : String) : Upshot Fault Script :=
  match Token.ofText text with
  | .error fault => .error fault
  | .ok tokens => .ofExcept ((ofTokens grammar (quotableLines text) tokens).mapError Stop.fault)
  | .endless => .endless

end Script

end Directive
