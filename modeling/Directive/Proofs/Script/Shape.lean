import Directive.Proofs.Script.Recognition

/-!
# The shape of a parsed tree

* `Sound`: a chain has steps, and only a step behind another one refers to a result;
* `sound_of_ofText`: the items of every script that is parsed are like that.
-/

namespace Directive

open ParseContext

/-- Items of a script, or the steps of a chain, of which `step` is the first. -/
inductive Sound : Option Nat → List Node → Prop
  | nil {step : Option Nat} : Sound step []
  | command {step : Option Nat} {i : Invocation} {nodes : List Node}
      (earlier : ∀ phrase, i.input = some (.reference phrase) → ∃ k, step = some (k + 1))
      (rest : Sound (step.map (· + 1)) nodes) : Sound step (.invocation i :: nodes)
  | chain {step : Option Nat} {slot : Option String} {line column : Int} {steps nodes : List Node}
      (nonempty : steps ≠ []) (inner : Sound (some 0) steps)
      (rest : Sound (step.map (· + 1)) nodes) :
      Sound step (.chain slot line column steps :: nodes)

namespace Sound

variable {step : Option Nat} {nodes : List Node}

theorem drop {before : List Node} (h : Sound step (before ++ nodes)) :
    Sound (step.map (· + before.length)) nodes := by
  induction before generalizing step with
  | nil => simpa using h
  | cons n before ih =>
    have hRest : Sound (step.map (· + 1)) (before ++ nodes) := by
      cases h with
      | command _ rest => exact rest
      | chain _ _ rest => exact rest
    have hDropped := ih hRest
    rw [Option.map_map] at hDropped
    simpa only [Function.comp_def, List.length_cons, Nat.add_assoc, Nat.add_comm 1] using hDropped

theorem of_mem {slot : Option String} {line column : Int} {steps : List Node}
    (h : Sound step nodes) (mem : .chain slot line column steps ∈ nodes) :
    steps ≠ [] ∧ Sound (some 0) steps := by
  obtain ⟨before, rest, rfl⟩ := List.append_of_mem mem
  cases h.drop with
  | chain nonempty inner _ => exact ⟨nonempty, inner⟩

/-- A step that refers to a result is not the first one. -/
theorem behind {before : List Node} {i : Invocation} {phrase : String}
    (h : Sound (some 0) (before ++ .invocation i :: nodes))
    (hInput : i.input = some (.reference phrase)) : before ≠ [] := by
  rintro rfl
  cases h with
  | command earlier _ =>
    obtain ⟨k, hStep⟩ := earlier phrase hInput
    cases hStep

end Sound

theorem CommandLine.earlier {g : Grammar} {step : Option Nat} {line : List Token} {i : Invocation}
    (h : CommandLine g step line i) (phrase : String)
    (hInput : i.input = some (.reference phrase)) : ∃ k, step = some (k + 1) := by
  cases h with
  | line _ _ _ _ given =>
    cases given with
    | absent => cases hInput
    | literal => cases hInput
    | reference => exact ⟨_, rfl⟩

theorem sound_of_reads {c : ParseContext} {step : Option Nat} {ts rest : List Token}
    {nodes : List Node} (h : Reads c step ts nodes rest) : Sound step nodes := by
  induction h with
  | nothing => exact .nil
  | eof _ => exact .nil
  | newline _ _ ih => exact ih
  | dedent _ => exact .nil
  | command heading _ ih =>
    obtain ⟨line, hLine, -⟩ := commandLine_of_takeHeading heading
    exact .command hLine.earlier ih
  | chain _ _ nonempty _ ihInner ihMore => exact .chain nonempty ihInner ihMore

theorem reads_of_ofText {g : Grammar} {text : String} {s : Script}
    (parsed : Script.ofText g text = .ok s) :
    ∃ ts rest, Token.ofText text = .ok ts ∧
      Reads ⟨g, Script.quotableLines text⟩ none ts s.items rest := by
  unfold Script.ofText at parsed
  split at parsed
  · cases parsed
  · rename_i ts hTokens
    rcases hScript : Script.ofTokens g (Script.quotableLines text) ts with e | s'
    · rw [hScript] at parsed
      cases parsed
    · rw [hScript] at parsed
      cases parsed
      obtain ⟨rest, hReads⟩ := Script.ofTokens_eq_ok_iff.mp hScript
      exact ⟨ts, rest, hTokens, hReads⟩
  · cases parsed

theorem sound_of_ofText {g : Grammar} {text : String} {s : Script}
    (parsed : Script.ofText g text = .ok s) : Sound none s.items := by
  obtain ⟨ts, rest, -, hReads⟩ := reads_of_ofText parsed
  exact sound_of_reads hReads

end Directive
