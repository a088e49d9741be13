import Directive.Proofs.Grammar.Declared
import Directive.Proofs.Modifier.Spelling
import Directive.Proofs.Script.Repeated

/-!
# Modifiers under other spellings

What a grammar declares under a key is found by scripts under every spelling of the key.

* `Grammar.Canonical.name_eq`: a schema that is found has the name that it is found under;
* `ofText_error_cases`: what a text fails with comes from its characters, or from a line;
* `ModifierLine`: a line of a text with a command and its modifiers, to which the parse comes;
* `ModifierLine.error_of_refused`, `ModifierLine.refused_of_error`, `ModifierLine.accepted`: how such
  a line is judged;
* `spellings_agree`: by the domain that the grammar's data declare last for the key.
-/

namespace Directive

open ParseContext

/-! ### Schemas that judge by one domain -/

theorem Grammar.Canonical.name_eq {g : Grammar} (canonical : g.Canonical) {name : String}
    {s : Schema} (known : g.find? name = some s) : s.name = name :=
  (canonical _ (Table.mem_of_get? known)).2.1

theorem Grammar.Canonical.isCanonicalKey {g : Grammar} (canonical : g.Canonical)
    {name key : String} {s : Schema} {d : Domain} (known : g.find? name = some s)
    (declared : s.modifiers.get? key = some d) : IsCanonicalKey key :=
  ((canonical _ (Table.mem_of_get? known)).2.2 _ (Table.mem_of_get? declared)).1

namespace Schema

variable {schema : Schema} {key : String} {value : Setting} {d : Domain} {r : Refusal}

theorem accepts_iff (declared : schema.modifiers.get? key = some d) :
    schema.Accepts key value ↔ d.refusal? value = none := by
  constructor
  · rintro ⟨d', hDeclared, hRefusal⟩
    rw [declared] at hDeclared
    cases hDeclared
    exact hRefusal
  · intro hRefusal
    exact ⟨d, declared, hRefusal⟩

theorem objects_iff (declared : schema.modifiers.get? key = some d) {trouble : Trouble} :
    schema.Objects key value trouble ↔
      ∃ r, d.refusal? value = some r ∧ trouble = schema.refused key value d r := by
  constructor
  · intro objects
    cases objects with
    | unknownKey undeclared =>
      rw [declared] at undeclared
      cases undeclared
    | @refused d' r hDeclared refusal =>
      rw [declared] at hDeclared
      cases hDeclared
      exact ⟨r, refusal, rfl⟩
  · rintro ⟨r, refusal, rfl⟩
    exact .refused declared refusal

theorem objection?_of_declared (declared : schema.modifiers.get? key = some d) (value : Setting) :
    schema.objection? key value = (d.refusal? value).map (schema.refused key value d) := by
  rw [objection?, declared]

end Schema

/-! ### What a text fails with -/

theorem ofText_error_cases {g : Grammar} {text : String} {f : Fault}
    (h : Script.ofText g text = .error f) :
    (∃ p, f.trouble = .lex p) ∨ f.trouble.OfLine g := by
  unfold Script.ofText at h
  rcases hTokens : Token.ofText text with f' | ts | _
  · rw [hTokens] at h
    cases h
    obtain ⟨-, p, hProblem⟩ := pointsInto_of_ofText hTokens
    exact .inl ⟨p, hProblem⟩
  · rw [hTokens] at h
    dsimp only at h
    rcases hScript : Script.ofTokens g (Script.quotableLines text) ts with e | s
    · rw [hScript] at h
      cases h
      obtain ⟨p, hVisits, hFails⟩ := visits_of_error (Script.nodesOf_of_ofTokens_error hScript)
      have hLines := inLines_of_visits (laid_of_ofText hTokens) hVisits
      exact .inr (ofLine_of_failsAt hFails hLines)
    · rw [hScript] at h
      cases h
  · rw [hTokens] at h
    cases h

/-- A key that a command has is not reported as unknown, in whatever text. -/
theorem ofText_ne_unknownKey {g : Grammar} (canonical : g.Canonical) {name key : String}
    {schema : Schema} {d : Domain} (known : g.find? name = some schema)
    (declared : schema.modifiers.get? key = some d) {text : String} {f : Fault}
    (fails : Script.ofText g text = .error f) (value : Json) (domain : String) :
    f.trouble ≠ .invalid name key value domain .unknownKey := by
  intro hUnknown
  obtain ⟨p, hLex⟩ | hLine := ofText_error_cases fails
  · rw [hLex] at hUnknown
    cases hUnknown
  · rw [hUnknown] at hLine
    generalize hTrouble : Trouble.invalid name key value domain .unknownKey = trouble at hLine
    cases hLine with
    | problem => cases hTrouble
    | modifier known' objects =>
      have hName := canonical.name_eq known'
      cases objects with
      | unknownKey undeclared =>
        cases hTrouble
        rw [← hName, known] at known'
        cases known'
        rw [declared] at undeclared
        cases undeclared
      | refused => cases hTrouble

/-! ### Lines of a text -/

theorem problem_of_takeLineEnd {c : ParseContext} {command : String} {ts : List Token} {e : Stop}
    (h : c.takeLineEnd command ts = .error e) : ∃ p, e.fault.trouble = .parse p := by
  unfold takeLineEnd stop at h
  split at h
  · cases h
  · cases h
  · cases h
    exact ⟨_, rfl⟩

variable {earlier later written : List WrittenModifier} {w : WrittenModifier}

/-- Of the modifiers with a name one is the last. -/
theorem exists_last_named {name : String} (h : ∃ v ∈ written, v.name = name) :
    ∃ earlier w later, written = earlier ++ w :: later ∧ w.name = name ∧
      ∀ u ∈ later, u.name ≠ w.name := by
  induction written with
  | nil =>
    obtain ⟨v, hv, -⟩ := h
    cases hv
  | cons v written ih =>
    by_cases again : ∃ u ∈ written, u.name = name
    · obtain ⟨earlier, w, later, rfl, hLast⟩ := ih again
      exact ⟨v :: earlier, w, later, rfl, hLast⟩
    · have hName : v.name = name := by
        obtain ⟨u, hu, hName⟩ := h
        obtain rfl | hu := List.mem_cons.mp hu
        · exact hName
        · exact absurd ⟨u, hu, hName⟩ again
      refine ⟨[], v, written, rfl, hName, ?_⟩
      intro u hu hSame
      exact again ⟨u, hu, hSame.trans hName⟩

theorem eq_of_last {earlier' later' : List WrittenModifier} {v : WrittenModifier}
    (same : earlier ++ w :: later = earlier' ++ v :: later') (last : ∀ u ∈ later, u.name ≠ w.name)
    (last' : ∀ u ∈ later', u.name ≠ v.name) (name : v.name = w.name) : v = w := by
  have hLast := @find?_last earlier later w last
  have hLast' := @find?_last earlier' later' v last'
  rw [← same, name, hLast] at hLast'
  exact (Option.some.inj hLast').symm

/-- The setting of a modifier counts if its name is not written again behind it. -/
theorem lastSettings_last (last : ∀ v ∈ later, v.name ≠ w.name) :
    ∃ before after, lastSettings (earlier ++ w :: later) = before ++ (w.name, w.setting) :: after ∧
      ∀ m ∈ before, m.1 ≠ w.name := by
  have hOnce : ¬ later.any (·.name = w.name) = true := by
    simpa using last
  have hSplit := lastSettings_append earlier (w :: later)
  rw [lastSettings, if_neg hOnce] at hSplit
  refine ⟨_, _, hSplit, ?_⟩
  intro m hm hName
  have hOther := (List.mem_filter.mp hm).2
  simp [hName] at hOther

theorem get?_lastTable_last (last : ∀ v ∈ later, v.name ≠ w.name) :
    (lastTable (earlier ++ w :: later)).get? w.name = some w.setting := by
  obtain ⟨before, after, hSplit, hBefore⟩ := @lastSettings_last earlier later w last
  have hLookup : (lastSettings (earlier ++ w :: later)).lookup w.name = some w.setting := by
    rw [List.lookup_eq_some_iff]
    refine ⟨before, after, hSplit, ?_⟩
    intro m hm
    exact bne_iff_ne.mpr (Ne.symm (hBefore m hm))
  exact hLookup

theorem refusal?_of_accepts {schema : Schema} {d : Domain} (last : ∀ v ∈ later, v.name ≠ w.name)
    (declared : schema.modifiers.get? w.name = some d)
    (accepts : ∀ m ∈ lastSettings (earlier ++ w :: later), schema.Accepts m.1 m.2) :
    d.refusal? w.setting = none := by
  obtain ⟨before, after, hSplit, -⟩ := @lastSettings_last earlier later w last
  have hMem : (w.name, w.setting) ∈ lastSettings (earlier ++ w :: later) := by
    rw [hSplit]
    exact List.mem_append_right before List.mem_cons_self
  exact (Schema.accepts_iff declared).mp (accepts (w.name, w.setting) hMem)

/-- What the parse of a text knows. -/
abbrev contextOf (g : Grammar) (text : String) : ParseContext := ⟨g, Script.quotableLines text⟩

/-- A line of a text to which the parse comes: the front of a command, some modifiers with values, and
the end of these. -/
structure ModifierLine (g : Grammar) (text : String) (step : Option Nat) (front : List Token)
    (schema : Schema) (i : Invocation) (written : List WrittenModifier) (behind : List Token) :
    Prop where
  reached : ∃ tokens, Token.ofText text = .ok tokens ∧
    Visits (contextOf g text) ⟨none, tokens⟩ ⟨step, lineWith front written behind⟩
  front : CommandFront g step front schema i
  wellFormed : ∀ v ∈ written, v.WellFormed
  ends : ModifiersEnd written behind

namespace ModifierLine

variable {g : Grammar} {text : String} {step : Option Nat} {front behind : List Token}
  {schema : Schema} {i : Invocation} {d : Domain} {r : Refusal} {e : Stop}

theorem outcome (h : ModifierLine g text step front schema i written behind) :
    LineOutcome (contextOf g text) schema i written behind
      ((contextOf g text).takeHeading step (lineWith front written behind)) :=
  lineOutcome_takeHeading h.front h.wellFormed h.ends

/-- A line that fails is at fault for the text. -/
theorem ofText_of_error (h : ModifierLine g text step front schema i written behind)
    (fails : (contextOf g text).takeHeading step (lineWith front written behind) = .error e) :
    Script.ofText g text = .error e.fault := by
  obtain ⟨tokens, hTokens, visits⟩ := h.reached
  have hName : nextKind (lineWith front written behind) = .commandName := by
    cases h.front with
    | front name => exact name
  exact ofText_of_visits hTokens visits hName fails

section Last

variable (h : ModifierLine g text step front schema i (earlier ++ w :: later) behind)
  (last : ∀ v ∈ later, v.name ≠ w.name) (declared : schema.modifiers.get? w.name = some d)

include h last declared

/-- A setting that is refused keeps the text from being a script. If all settings in front of it are
accepted, it is at fault itself, for the reason that its domain gives. -/
theorem error_of_refused (refusal : d.refusal? w.setting = some r) :
    ∃ f, Script.ofText g text = .error f ∧
      ∀ before after, lastSettings (earlier ++ w :: later) = before ++ (w.name, w.setting) :: after →
        (∀ m ∈ before, schema.Accepts m.1 m.2) →
        f = ⟨schema.refused w.name w.setting d r,
          (contextOf g text).placeOf w.key (some i.command)⟩ := by
  rcases hLine : (contextOf g text).takeHeading step
      (lineWith front (earlier ++ w :: later) behind) with e | taken
  · refine ⟨e.fault, h.ofText_of_error hLine, ?_⟩
    intro before after hSplit accepts
    have hBlames : schema.Blames (lastSettings (earlier ++ w :: later)) w.name w.setting
        (schema.refused w.name w.setting d r) :=
      ⟨before, after, hSplit, accepts, .refused declared refusal⟩
    have hFault := @takeHeading_of_blames _ _ _ (contextOf g text) _ _ _ _ _ _ h.front h.wellFormed
      h.ends.noMore last hBlames
    rw [hLine] at hFault
    cases hFault
    rfl
  · have hOutcome := h.outcome
    rw [hLine] at hOutcome
    cases hOutcome with
    | taken accepts =>
      rw [refusal?_of_accepts last declared accepts] at refusal
      cases refusal

/-- Where the line fails over this key, the domain refuses the setting, and that is the fault. -/
theorem refused_of_error
    (fails : (contextOf g text).takeHeading step (lineWith front (earlier ++ w :: later) behind) =
      .error e) {name shown : String} {value : Json} {objection : Objection}
    (blamed : e.fault.trouble = .invalid name w.name value shown objection) :
    ∃ r, d.refusal? w.setting = some r ∧
      e.fault = ⟨schema.refused w.name w.setting d r,
        (contextOf g text).placeOf w.key (some i.command)⟩ := by
  have hOutcome := h.outcome
  rw [fails] at hOutcome
  generalize hFault : (Except.error e : Except Stop (Heading × List Token)) = outcome at hOutcome
  cases hOutcome with
  | taken => cases hFault
  | notEnded _ hEnd =>
    cases hFault
    obtain ⟨p, hProblem⟩ := problem_of_takeLineEnd hEnd
    rw [hProblem] at blamed
    cases blamed
  | refused split last' blames =>
    cases hFault
    obtain ⟨-, _, _, _, hTrouble⟩ := blames.objects.name_eq
    have hName := (Trouble.invalid.inj (hTrouble.symm.trans blamed)).2.1
    obtain rfl := eq_of_last split last last' hName
    obtain ⟨r, refusal, rfl⟩ := (Schema.objects_iff declared).mp blames.objects
    exact ⟨r, refusal, rfl⟩

/-- In a script the setting is accepted, and the command has it under its canonical key. -/
theorem accepted {s : Script} (parsed : Script.ofText g text = .ok s) :
    d.refusal? w.setting = none ∧ ∃ j ∈ s.invocations,
      (j.command, j.line, j.column) = (i.command, i.line, i.column) ∧
      j.modifiers.get? w.name = some w.setting := by
  rcases hLine : (contextOf g text).takeHeading step
      (lineWith front (earlier ++ w :: later) behind) with e | taken
  · rw [h.ofText_of_error hLine] at parsed
    cases parsed
  · have hOutcome := h.outcome
    rw [hLine] at hOutcome
    cases hOutcome with
    | taken accepts ended =>
      obtain ⟨tokens, hTokens, visits⟩ := h.reached
      exact ⟨refusal?_of_accepts last declared accepts, _,
        mem_invocations_of_visits parsed hTokens visits hLine, rfl, get?_lastTable_last last⟩

end Last

end ModifierLine

/-- A modifier on a line is judged by one domain: the line fails over its key only where the domain
refuses its setting, a setting that is refused is at fault unless one in front of it is, and in a script
it is accepted and stands under its canonical key. -/
structure JudgedBy (g : Grammar) (text : String) (step : Option Nat) (line : List Token)
    (schema : Schema) (i : Invocation) (written : List WrittenModifier) (w : WrittenModifier)
    (d : Domain) : Prop where
  reason : ∀ e, (contextOf g text).takeHeading step line = .error e →
    ∀ value shown objection, e.fault.trouble = .invalid i.command w.name value shown objection →
      ∃ r, d.refusal? w.setting = some r ∧ e.fault = ⟨schema.refused w.name w.setting d r,
        (contextOf g text).placeOf w.key (some i.command)⟩
  refused : ∀ r, d.refusal? w.setting = some r → ∃ f, Script.ofText g text = .error f ∧
    ∀ before after, lastSettings written = before ++ (w.name, w.setting) :: after →
      (∀ m ∈ before, schema.Accepts m.1 m.2) →
        f = ⟨schema.refused w.name w.setting d r,
          (contextOf g text).placeOf w.key (some i.command)⟩
  accepted : ∀ s, Script.ofText g text = .ok s → d.refusal? w.setting = none ∧
    ∃ j ∈ s.invocations, (j.command, j.line, j.column) = (i.command, i.line, i.column) ∧
      j.modifiers.get? w.name = some w.setting

theorem ModifierLine.judgedBy {g : Grammar} {text : String} {step : Option Nat}
    {front behind : List Token} {schema : Schema} {i : Invocation} {d : Domain}
    (h : ModifierLine g text step front schema i (earlier ++ w :: later) behind)
    (last : ∀ v ∈ later, v.name ≠ w.name) (declared : schema.modifiers.get? w.name = some d) :
    JudgedBy g text step (lineWith front (earlier ++ w :: later) behind) schema i
      (earlier ++ w :: later) w d where
  reason _ fails _ _ _ blamed := h.refused_of_error last declared fails blamed
  refused _ refusal := h.error_of_refused last declared refusal
  accepted _ parsed := h.accepted last declared parsed

/-- **Grammars and scripts agree on how keys are spelled.** A canonical key is its own canonical key.
Let data be accepted as a grammar, and let a key stand among the modifiers of a command there, however
it is written. Then every spelling of it that the lexer reads as a key has its canonical key, and the
grammar has one domain for it: the domain of the last key of the command with this canonical key. No
text is told that the key is unknown. A modifier that is written with the command under this spelling
is judged by that domain, or the last one with the same canonical key is judged in its place, and in a
script that one stands under the canonical key. -/
theorem spellings_agree :
    (∀ key, canonicalKey (canonicalKey key) = canonicalKey key) ∧
    ∀ (data : Json) (g : Grammar) (name : String) (declared : List (String × Json)),
      Grammar.ofData data = .ok g → name ≠ chainCommand → data.ModifiersOf name declared →
      ∀ f ∈ declared, ∀ spelling : String,
        nameAt? isKeyChar spelling.toList = some spelling.toList → IsSpellingOf spelling f.1 →
        canonicalKey spelling = canonicalKey f.1 ∧ IsCanonicalKey (canonicalKey spelling) ∧
        ∃ schema d, g.find? name = some schema ∧
          DeclaresLast .memory declared (canonicalKey spelling) d ∧
          (∀ value, schema.objection? (canonicalKey spelling) value =
            (d.refusal? value).map (schema.refused (canonicalKey spelling) value d)) ∧
          (∀ text fault, Script.ofText g text = .error fault → ∀ value shown,
            fault.trouble ≠ .invalid name (canonicalKey spelling) value shown .unknownKey) ∧
          ∀ text step front i written v behind,
            ModifierLine g text step front schema i written behind → i.command = name →
            v ∈ written → v.key.text = spelling →
            ∃ earlier w later, written = earlier ++ w :: later ∧ w.name = canonicalKey spelling ∧
              (∀ u ∈ later, u.name ≠ w.name) ∧
              JudgedBy g text step (lineWith front written behind) schema i written w d := by
  refine ⟨canonicalKey_canonicalKey, ?_⟩
  intro data g name declared accepted _ declares f mem spelling reads spelled
  have hSame := canonicalKey_of_spelling spelled reads
  have hCanonical := Grammar.canonical_of_ofData accepted
  obtain ⟨schema, d, known, hLast, hDomain⟩ := Grammar.modifiers_of_ofData accepted declares mem
  rw [← hSame] at hLast hDomain
  refine ⟨hSame, hCanonical.isCanonicalKey known hDomain, schema, d, known, hLast, ?_, ?_, ?_⟩
  · exact Schema.objection?_of_declared hDomain
  · intro text fault fails value shown
    exact ofText_ne_unknownKey hCanonical known hDomain fails value shown
  · rintro text step front i written v behind line - hMem rfl
    obtain ⟨earlier, w, later, rfl, hName, last⟩ := exists_last_named ⟨v, hMem, rfl⟩
    change schema.modifiers.get? v.name = some d at hDomain
    rw [← hName] at hDomain
    exact ⟨earlier, w, later, rfl, hName, last, line.judgedBy last hDomain⟩

/-- The modifier of a command, declared under two spellings of its key. -/
def tagModifiers : List (String × Json) :=
  [(" Max-Tags", tagged "enum" [("choices", .arr [.str "few"])]),
    ("max_tags", tagged "enum" [("choices", .arr [.str "ten"])])]

def tagData : Json := .obj [("TAG", .obj [("modifiers", .obj tagModifiers)])]

/-- A third spelling, judged by the domain that is declared last. -/
theorem spellings_agree_of_tag :
    ∃ g s d, Grammar.ofData tagData = .ok g ∧
      DeclaresLast .memory tagModifiers (canonicalKey "MAX-tags") d ∧
      d.refusal? (.ofText "ten") = none ∧
      Script.ofText g "TAG: \"tea\" --MAX-tags=ten\n" = .ok s ∧
      ∃ j ∈ s.invocations, j.command = "TAG" ∧
        j.modifiers.get? (canonicalKey "MAX-tags") = some (.ofText "ten") := by
  generalize hText : "TAG: \"tea\" --MAX-tags=ten\n" = text
  let w : WrittenModifier := ⟨⟨.modifierKey, "MAX-tags", 1, 12⟩, ⟨.modifierValue, "ten", 1, 23⟩⟩
  let front : List Token :=
    [⟨.commandName, "TAG", 1, 1⟩, ⟨.colon, ":", 1, 4⟩, ⟨.quotedString, "tea", 1, 6⟩]
  let behind : List Token := [⟨.newline, "\n", 1, 26⟩, ⟨.eof, "", 2, 1⟩]
  have hTokens : Token.ofText text = .ok (lineWith front [w] behind) := by
    have hSame : (Token.ofText text).toOption = some (lineWith front [w] behind) := by
      subst hText
      decide +kernel
    exact Upshot.toOption_eq_some.mp hSame
  obtain ⟨g, hData⟩ : tagData.IsGrammar := by decide +kernel
  have hParses : ((Grammar.ofData tagData).toOption.map fun g =>
      (Script.ofText g text).toOption.isSome) = some true := by
    subst hText
    decide +kernel
  rw [hData] at hParses
  have hDeclares : tagData.ModifiersOf "TAG" tagModifiers :=
    ⟨_, _, tagModifiers, rfl, rfl, rfl, (Table.entries_ofList (by decide)).symm⟩
  obtain ⟨-, -, schema, d, known, hLast, -, -, judged⟩ :=
    spellings_agree.2 tagData g "TAG" tagModifiers hData (by decide) hDeclares _ List.mem_cons_self
      "MAX-tags" (by decide) (by decide +kernel)
  have hLine : ModifierLine g text none front schema
      ⟨"TAG", some (.literal ["tea"]), .empty, none, 1, 1⟩ [w] behind := by
    refine ⟨⟨_, hTokens, .refl⟩, ?_, ?_, ?_⟩
    · exact .front rfl (by decide) known rfl (.literal (by simp) (by decide)) (by simp)
    · exact List.forall_mem_singleton.mpr ⟨rfl, rfl, by decide⟩
    · exact ⟨by decide, by simp⟩
  obtain ⟨earlier, w', later, split, -, -, hJudged⟩ :=
    judged text none front _ [w] w behind hLine rfl List.mem_cons_self rfl
  obtain rfl : w' = w := List.eq_of_mem_singleton (split ▸ List.mem_append_cons_self)
  obtain ⟨s, hParsed⟩ := Upshot.exists_of_isSome (Option.some.inj hParses)
  obtain ⟨hAccepted, j, hMem, hPlace, hSetting⟩ := hJudged.accepted s hParsed
  exact ⟨g, s, d, hData, hLast, hAccepted, hParsed, j, hMem, (Prod.mk.inj hPlace).1, hSetting⟩

end Directive
