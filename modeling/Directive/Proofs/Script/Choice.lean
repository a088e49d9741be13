import Directive.Proofs.Modifier.Setting
import Directive.Proofs.Script.Callable
import Directive.Proofs.Script.Spelling

/-!
# Choices that can be made

The value of a modifier is classified before its domain has a say.

* `Setting.IsPlain`: the texts that are classified as they are;
* `setting_of_ofText`: the settings of a script are what values are classified as;
* `ofText_ne_single`: none of them is a single value that is not plain;
* `choice_of_admits`: so a declared choice can be made exactly if it is plain.
-/

namespace Directive

open ParseContext

namespace Setting

/-- A text with no comma that is no pair of a key and a number. -/
def IsPlain (t : String) : Prop := ',' ∉ t.toList ∧ ¬ IsPair t.toList

instance (t : String) : Decidable (IsPlain t) := inferInstanceAs (Decidable (_ ∧ _))

variable {t : String}

theorem ne_empty_of_notBlank (notBlank : Text.isBlankText t = false) : t ≠ "" := by
  rintro rfl
  cases notBlank

theorem ofText_of_isPlain (plain : IsPlain t) (notBlank : Text.isBlankText t = false)
    (trimmed : Text.trimChars t.toList = t.toList) : ofText t = .single t :=
  (ofText_eq_single_iff (ne_empty_of_notBlank notBlank) trimmed).mpr plain

/-- A single value is what it is classified as by itself. -/
theorem isPlain_of_ofText {raw : String} (h : ofText raw = .single t)
    (notBlank : Text.isBlankText t = false) (trimmed : Text.trimChars t.toList = t.toList) :
    IsPlain t :=
  (ofText_eq_single_iff (ne_empty_of_notBlank notBlank) trimmed).mp (ofText_text_single h)

/-- A trimmed text that is classified as a single value is classified as itself. -/
theorem eq_of_ofText {u : String} (h : ofText t = .single u)
    (trimmed : Text.trimChars t.toList = t.toList) : u = t := by
  obtain ⟨-, -, rfl⟩ := ofChars_eq_single_iff.mp h
  rw [trimmed, String.ofList_toList]

end Setting

namespace Domain

variable {choices : List String} {c : String}

theorem refusal?_choice (mem : c ∈ choices) : (choice choices).refusal? (.single c) = none :=
  if_pos mem

/-- A choice is a single value. -/
theorem refusal?_choice_of_ne {value : Setting} (h : ∀ t, value ≠ .single t) :
    ∃ r, (choice choices).refusal? value = some r := by
  cases value with
  | single t => exact absurd rfl (h t)
  | list items => exact ⟨_, rfl⟩
  | weighted pairs => exact ⟨_, rfl⟩

end Domain

/-- The settings of a command are what the values that are written are classified as. -/
theorem setting_of_lastSettings {written : List WrittenModifier} {e : String × Setting}
    (h : e ∈ lastSettings written) : ∃ w ∈ written, e = (w.name, w.setting) := by
  obtain ⟨earlier, w, later, rfl, rfl, -⟩ := exists_last_of_mem h
  exact ⟨w, by simp, rfl⟩

theorem setting_of_ofText {g : Grammar} {text : String} {s : Script}
    (parsed : Script.ofText g text = .ok s) :
    ∀ i ∈ s.invocations, ∀ e ∈ i.modifiers.entries,
      ∃ raw, Text.isBlankText raw = false ∧ e.2 = Setting.ofText raw := by
  intro i hi e he
  obtain ⟨ts, -, hLines⟩ := line_of_ofText parsed
  obtain ⟨_, line, hLine, -⟩ := hLines i hi
  cases hLine with
  | line _ _ _ _ _ _ wellFormed _ =>
    obtain ⟨w, hw, rfl⟩ := setting_of_lastSettings he
    exact ⟨w.value.text, (wellFormed w hw).notBlank, rfl⟩

/-- The last modifier with some key has some value. -/
def LastGives (written : List WrittenModifier) (key value : String) : Prop :=
  ∃ earlier w later, written = earlier ++ w :: later ∧ w.name = key ∧ w.value.text = value ∧
    ∀ v ∈ later, v.name ≠ key

namespace ModifierLine

variable {g : Grammar} {text key c : String} {step : Option Nat} {front behind : List Token}
  {schema : Schema} {i : Invocation} {written : List WrittenModifier} {choices : List String}

/-- A choice that is plain is not at fault, and the command has it. -/
theorem takes_choice (h : ModifierLine g text step front schema i written behind)
    (gives : LastGives written key c) (declared : schema.modifiers.get? key = some (.choice choices))
    (mem : c ∈ choices) (single : Setting.ofText c = .single c) :
    (∀ e, (contextOf g text).takeHeading step (lineWith front written behind) = .error e →
      ∀ value shown objection, e.fault.trouble ≠ .invalid i.command key value shown objection) ∧
    ∀ s, Script.ofText g text = .ok s → ∃ j ∈ s.invocations,
      (j.command, j.line, j.column) = (i.command, i.line, i.column) ∧
        j.modifiers.get? key = some (.single c) := by
  obtain ⟨earlier, w, later, rfl, rfl, rfl, last⟩ := gives
  have hJudged := h.judgedBy last declared
  have hSetting : w.setting = .single w.value.text := single
  constructor
  · intro e fails value shown objection blamed
    obtain ⟨r, refusal, -⟩ := hJudged.reason e fails value shown objection blamed
    rw [hSetting, Domain.refusal?_choice mem] at refusal
    cases refusal
  · intro s parsed
    obtain ⟨-, j, hj, hPlace, hHas⟩ := hJudged.accepted s parsed
    rw [hSetting] at hHas
    exact ⟨j, hj, hPlace, hHas⟩

/-- A choice that is not classified as a single value keeps the text from being a script. -/
theorem refuses_choice (h : ModifierLine g text step front schema i written behind)
    (gives : LastGives written key c) (declared : schema.modifiers.get? key = some (.choice choices))
    (several : ∀ t, Setting.ofText c ≠ .single t) : ∃ f, Script.ofText g text = .error f := by
  obtain ⟨earlier, w, later, rfl, rfl, rfl, last⟩ := gives
  obtain ⟨r, refusal⟩ := @Domain.refusal?_choice_of_ne choices _ several
  obtain ⟨f, hFault, -⟩ := (h.judgedBy last declared).refused r refusal
  exact ⟨f, hFault⟩

end ModifierLine

/-- **A declared choice can be made exactly if it is plain.** Let a command that was admitted have an
identifier for its name, and a modifier of which the domain is a choice, and let one of the choices be
trimmed and not blank. If it is plain, the command may be called with any text in quotes and with this
choice in quotes, and the script has the choice as a single value. The same holds on every line with
this command: where the choice is the last value for the key, no fault is found with it, and the command
has it in the script. If the choice is not plain, then no text with such a line is a script, and no
script at all has it as a single value. -/
theorem choice_of_admits {g : Grammar} {name key c : String} {schema : Schema}
    {choices : List String} (admitted : g.Admits name) (identifier : IsIdentifier name)
    (notChain : name ≠ chainCommand) (known : g.find? name = some schema)
    (declared : schema.modifiers.get? key = some (.choice choices)) (mem : c ∈ choices)
    (notBlank : Text.isBlankText c = false) (trimmed : Text.trimChars c.toList = c.toList) :
    (Setting.IsPlain c →
      (∀ s, Script.ofText g (callText name s ++ modifierText key c) =
        .ok ⟨[.invocation ⟨name, some (.literal [s]), Table.ofList [(key, .single c)], none, 1, 1⟩]⟩) ∧
      ∀ text step front i written behind,
        ModifierLine g text step front schema i written behind → LastGives written key c →
        (∀ e, (contextOf g text).takeHeading step (lineWith front written behind) = .error e →
          ∀ value shown objection,
            e.fault.trouble ≠ .invalid i.command key value shown objection) ∧
        ∀ s, Script.ofText g text = .ok s → ∃ j ∈ s.invocations,
          (j.command, j.line, j.column) = (i.command, i.line, i.column) ∧
            j.modifiers.get? key = some (.single c)) ∧
    (¬ Setting.IsPlain c →
      (∀ text step front i written behind,
        ModifierLine g text step front schema i written behind → LastGives written key c →
        ∃ f, Script.ofText g text = .error f) ∧
      ∀ text s, Script.ofText g text = .ok s → ∀ i ∈ s.invocations, ∀ e ∈ i.modifiers.entries,
        e.2 ≠ .single c) := by
  constructor
  · intro plain
    have hSingle := Setting.ofText_of_isPlain plain notBlank trimmed
    constructor
    · intro s
      obtain ⟨schema', offered⟩ := admitted.offers
      obtain rfl : schema = schema' := Option.some.inj (known.symm.trans offered.found)
      have hKey : IsCanonicalKey key := (offered.canonical _ (Table.mem_of_get? declared)).1
      have hAccepts : schema.Accepts key (.ofText c) := by
        rw [Schema.accepts_iff declared, hSingle]
        exact Domain.refusal?_choice mem
      have hFits : (CommandDraft.calling name s [(key, c)]).Fits g none :=
        CommandDraft.fits_calling known identifier notChain
          (List.forall_mem_singleton.mpr hAccepts) (List.forall_mem_singleton.mpr hKey)
          (by simp) (List.forall_mem_singleton.mpr notBlank) s
      have hScript := CommandDraft.script_of_write hFits
      rw [CommandDraft.write_calling, List.map_singleton, String.join_cons, String.join_nil,
        String.append_empty] at hScript
      rw [hScript, ← hSingle]
      rfl
    · intro text step front i written behind line gives
      exact line.takes_choice gives declared mem hSingle
  · intro notPlain
    constructor
    · intro text step front i written behind line gives
      refine line.refuses_choice gives declared fun t single => notPlain ?_
      obtain rfl := Setting.eq_of_ofText single trimmed
      exact Setting.isPlain_of_ofText single notBlank trimmed
    · intro text s parsed i hi e he single
      obtain ⟨raw, -, hRaw⟩ := setting_of_ofText parsed i hi e he
      exact notPlain (Setting.isPlain_of_ofText (hRaw.symm.trans single) notBlank trimmed)

/-- The data of a command with three modifiers of one choice each. Only the first choice is plain. -/
def sizeData : Json :=
  .obj [("TAG", .obj [("modifiers", .obj
    [("size", tagged "enum" [("choices", .arr [.str "a:b \"c\""])]),
      ("ratio", tagged "enum" [("choices", .arr [.str "a:1"])]),
      ("sizes", tagged "enum" [("choices", .arr [.str "a,b"])])])])]

def sizeSchema : Schema where
  name := "TAG"
  modifiers := .ofList
    [("size", .choice ["a:b \"c\""]), ("ratio", .choice ["a:1"]), ("sizes", .choice ["a,b"])]

theorem ofData_sizeData : Grammar.ofData sizeData = .ok (.ofSchemas [sizeSchema]) := by
  with_unfolding_all rfl

theorem choice_of_admits_of_size :
    ∃ g, Grammar.ofData sizeData = .ok g ∧
      Script.ofText g "TAG: \"tea\" --size=\"a:b \\\"c\\\"\"" =
        .ok ⟨[.invocation ⟨"TAG", some (.literal ["tea"]),
          Table.ofList [("size", .single "a:b \"c\"")], none, 1, 1⟩]⟩ ∧
      ∀ text s, Script.ofText g text = .ok s → ∀ i ∈ s.invocations,
        ∀ e ∈ i.modifiers.entries, e.2 ≠ .single "a:1" := by
  have hAdmits : Grammar.Admits (.ofSchemas [sizeSchema]) "TAG" :=
    .reached (.ofData ofData_sizeData) (by decide +kernel)
  have hKnown : Grammar.find? (.ofSchemas [sizeSchema]) "TAG" = some sizeSchema := rfl
  have hSize : sizeSchema.modifiers.get? "size" = some (.choice ["a:b \"c\""]) := rfl
  have hRatio : sizeSchema.modifiers.get? "ratio" = some (.choice ["a:1"]) := rfl
  obtain ⟨hChosen, -⟩ := choice_of_admits hAdmits (by decide) (by decide) hKnown hSize
    List.mem_cons_self (by decide) (by decide)
  obtain ⟨-, hNever⟩ := choice_of_admits hAdmits (by decide) (by decide) hKnown hRatio
    List.mem_cons_self (by decide) (by decide)
  exact ⟨_, ofData_sizeData, (hChosen (by decide +kernel)).1 "tea",
    (hNever (by decide +kernel)).2⟩

/-- A declared choice with a comma cannot be made. -/
theorem not_chosen_of_comma :
    ∃ g f, Grammar.ofData sizeData = .ok g ∧ g.find? "TAG" = some sizeSchema ∧
      IsIdentifier "TAG" ∧ "TAG" ≠ chainCommand ∧
      sizeSchema.modifiers.get? "sizes" = some (.choice ["a,b"]) ∧
      Text.isBlankText "a,b" = false ∧ Text.trimChars "a,b".toList = "a,b".toList ∧
      Script.ofText g (callText "TAG" "tea" ++ modifierText "sizes" "a,b") = .error f ∧
      f.message = "Invalid modifier '--sizes' for TAG: expected a single value, got 'a,b'; "
        ++ "accepted: one of: a,b" := by
  have hFails : ((Script.ofText (.ofSchemas [sizeSchema])
      (callText "TAG" "tea" ++ modifierText "sizes" "a,b")).mapError Fault.message).map
        (fun _ => ()) =
      .error ("Invalid modifier '--sizes' for TAG: expected a single value, got 'a,b'; "
        ++ "accepted: one of: a,b") := by
    decide +kernel
  rcases hScript : Script.ofText (.ofSchemas [sizeSchema])
      (callText "TAG" "tea" ++ modifierText "sizes" "a,b") with f | s | _
  · rw [hScript] at hFails
    exact ⟨_, f, ofData_sizeData, rfl, by decide, by decide, rfl, by decide, by decide, hScript,
      Upshot.error.inj hFails⟩
  · rw [hScript] at hFails
    cases hFails
  · rw [hScript] at hFails
    cases hFails

end Directive
