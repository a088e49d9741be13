import Directive.Proofs.Script.Objection
import Directive.Proofs.Script.Visit

/-!
# Repeated modifiers

Of modifiers with one name only the last counts. It has the place of the last, is judged alone, and
takes the blame alone.

* `lastSettings_drop`, `placeOfKey_drop`: a modifier that is written again makes no difference;
* `takeHeading_of_takeWritten_error`: a modifier without a value fails before any is judged;
* `LineOutcome`: what the line of a command comes to;
* `takeHeading_of_modifiers`: every line comes to that, and so does the text.
-/

namespace Directive

open ParseContext

variable {earlier later written : List WrittenModifier} {w : WrittenModifier}

theorem lastSettings_append (earlier later : List WrittenModifier) :
    lastSettings (earlier ++ later) =
      (lastSettings earlier).filter (fun m => !later.any (·.name = m.1)) ++ lastSettings later := by
  induction earlier with
  | nil => rfl
  | cons w earlier ih =>
    rw [List.cons_append, lastSettings, lastSettings, List.any_append, ih]
    by_cases inEarlier : earlier.any (·.name = w.name) = true
    · simp [inEarlier]
    · by_cases inLater : later.any (·.name = w.name) = true
      · simp [inEarlier, inLater]
      · simp [inEarlier, inLater]

/-- A modifier whose name is written again behind it has no setting that counts. -/
theorem lastSettings_drop (earlier : List WrittenModifier) (again : ∃ v ∈ later, v.name = w.name) :
    lastSettings (earlier ++ w :: later) = lastSettings (earlier ++ later) := by
  have hAgain : later.any (·.name = w.name) = true := by
    simpa using again
  have hSame (name : String) :
      (w :: later).any (·.name = name) = later.any (·.name = name) := by
    rw [List.any_cons]
    by_cases here : w.name = name
    · rw [← here, hAgain, Bool.or_true]
    · simp [here]
  have hLater : lastSettings (w :: later) = lastSettings later := by
    rw [lastSettings, if_pos hAgain]
  rw [lastSettings_append, lastSettings_append, hLater]
  simp only [hSame]

theorem wellFormed_drop (h : ∀ v ∈ earlier ++ w :: later, v.WellFormed) :
    ∀ v ∈ earlier ++ later, v.WellFormed := by
  have hSublist := (List.sublist_cons_self w later).append_left earlier
  intro v hv
  exact h v (hSublist.subset hv)

namespace ParseContext

variable {c : ParseContext} {command : String} {rest : List Token}

/-- A modifier whose name is written again behind it takes no blame. -/
theorem placeOfKey_drop (earlier : List WrittenModifier) (again : ∃ v ∈ later, v.name = w.name) :
    c.placeOfKey command (earlier ++ w :: later) = c.placeOfKey command (earlier ++ later) := by
  funext key
  rw [placeOfKey, placeOfKey, List.reverse_append, List.reverse_append, List.reverse_cons,
    List.append_assoc, List.singleton_append, List.find?_append, List.find?_append]
  by_cases here : canonicalKey w.key.text = key
  · -- The search is from the end, so it stops before it comes to this modifier.
    obtain ⟨v, hv, hName⟩ := again
    have hFound : (later.reverse.find? fun v => decide (canonicalKey v.key.text = key)).isSome := by
      rw [List.find?_isSome]
      exact ⟨v, List.mem_reverse.mpr hv, decide_eq_true (hName.trans here)⟩
    rw [Option.or_of_isSome hFound, Option.or_of_isSome hFound]
  · rw [List.find?_cons_of_neg]
    simpa using here

theorem takeWritten_of_noValue {key : Token} (hKey : key.kind = .modifierKey)
    (noValue : nextKind rest ≠ .modifierValue) :
    c.takeWritten (key :: rest) = c.stop (.noValue key.text) key rest := by
  rw [takeWritten.eq_def]
  dsimp only
  rw [if_pos hKey]
  cases rest with
  | nil => rfl
  | cons t rest => exact if_neg noValue

theorem takeWritten_of_blank {key value : Token} (hKey : key.kind = .modifierKey)
    (hValue : value.kind = .modifierValue) (blank : Text.isBlankText value.text = true) :
    c.takeWritten (key :: value :: rest) = c.stop (.blankValue key.text) value rest := by
  rw [takeWritten.eq_def]
  dsimp only
  rw [if_pos hKey, if_pos hValue, if_pos blank]

theorem takeModifiers_of_blames {schema : Schema} {trouble : Trouble}
    (wellFormed : ∀ v ∈ earlier ++ w :: later, v.WellFormed) (noMore : nextKind rest ≠ .modifierKey)
    (last : ∀ v ∈ later, v.name ≠ w.name)
    (blames : schema.Blames (lastSettings (earlier ++ w :: later)) w.name w.setting trouble) :
    c.takeModifiers schema command ((earlier ++ w :: later).flatMap (·.tokens) ++ rest) =
      .error ⟨⟨trouble, c.placeOf w.key (some command)⟩, rest⟩ := by
  have hRefused : schema.validateAll (settings (earlier ++ w :: later))
      (c.placeOfKey command (earlier ++ w :: later)) =
        .error ⟨trouble, c.placeOf w.key (some command)⟩ := by
    rw [Schema.validateAll_eq_error_iff, entries_settings]
    exact ⟨w.name, w.setting, trouble, blames, by rw [placeOfKey_last last]⟩
  rw [takeModifiers, takeWritten_of_written wellFormed noMore]
  dsimp only
  rw [hRefused]

theorem takeModifiers_drop {schema : Schema} (again : ∃ v ∈ later, v.name = w.name)
    (wellFormed : ∀ v ∈ earlier ++ w :: later, v.WellFormed)
    (noMore : nextKind rest ≠ .modifierKey) :
    c.takeModifiers schema command ((earlier ++ w :: later).flatMap (·.tokens) ++ rest) =
      c.takeModifiers schema command ((earlier ++ later).flatMap (·.tokens) ++ rest) := by
  have hKept := wellFormed_drop wellFormed
  rw [takeModifiers, takeModifiers, takeWritten_of_written wellFormed noMore,
    takeWritten_of_written hKept noMore]
  dsimp only
  rw [settings_eq_lastTable, settings_eq_lastTable, placeOfKey_drop earlier again]
  have hTable : lastTable (earlier ++ w :: later) = lastTable (earlier ++ later) :=
    Table.ext (lastSettings_drop earlier again)
  rw [hTable]

theorem takeModifiers_of_takeWritten_error {schema : Schema} {e : Stop}
    (wellFormed : ∀ w ∈ written, w.WellFormed) (fails : c.takeWritten rest = .error e) :
    c.takeModifiers schema command (written.flatMap (·.tokens) ++ rest) = .error e := by
  rw [takeModifiers, takeWritten_append wellFormed, fails]
  rfl

end ParseContext

/-- In front of these tokens an input ends. -/
def InputEnds (behind : List Token) : Prop :=
  (nextKind behind).isString = false ∧ nextKind behind ≠ .bareReference

/-- In front of these tokens the modifiers of a line end. Where there are none, its input does. -/
structure ModifiersEnd (written : List WrittenModifier) (behind : List Token) : Prop where
  noMore : nextKind behind ≠ .modifierKey
  inputEnds : written = [] → InputEnds behind

/-- A line, with some modifiers written behind its front, and what is behind them. -/
def lineWith (front : List Token) (written : List WrittenModifier) (behind : List Token) :
    List Token :=
  front ++ (written.flatMap (·.tokens) ++ behind)

/-- What the line of a command comes to, on which some modifiers are written behind its input. The
settings that count are taken as they are; else the first of them that is not accepted is at fault,
and the fault stands at the last modifier with its name. -/
inductive LineOutcome (c : ParseContext) (schema : Schema) (i : Invocation)
    (written : List WrittenModifier) (behind : List Token) :
    Except Stop (Heading × List Token) → Prop
  | taken {after : List Token} (accepts : ∀ m ∈ lastSettings written, schema.Accepts m.1 m.2)
      (ended : c.takeLineEnd i.command behind = .ok after) :
      LineOutcome c schema i written behind
        (.ok (.command { i with modifiers := lastTable written }, after))
  | notEnded {e : Stop} (accepts : ∀ m ∈ lastSettings written, schema.Accepts m.1 m.2)
      (fails : c.takeLineEnd i.command behind = .error e) :
      LineOutcome c schema i written behind (.error e)
  | refused {earlier later : List WrittenModifier} {w : WrittenModifier} {trouble : Trouble}
      (split : written = earlier ++ w :: later) (last : ∀ v ∈ later, v.name ≠ w.name)
      (blames : schema.Blames (lastSettings written) w.name w.setting trouble) :
      LineOutcome c schema i written behind
        (.error ⟨⟨trouble, c.placeOf w.key (some i.command)⟩, behind⟩)

theorem LineOutcome.isOk_iff {c : ParseContext} {schema : Schema} {i : Invocation}
    {behind after : List Token} {outcome : Except Stop (Heading × List Token)}
    (h : LineOutcome c schema i written behind outcome)
    (ended : c.takeLineEnd i.command behind = .ok after) :
    (∃ taken, outcome = .ok taken) ↔ ∀ m ∈ lastSettings written, schema.Accepts m.1 m.2 := by
  cases h with
  | taken accepts => exact ⟨fun _ => accepts, fun _ => ⟨_, rfl⟩⟩
  | notEnded _ fails =>
    rw [ended] at fails
    cases fails
  | refused split last blames =>
    constructor
    · rintro ⟨taken, h⟩
      cases h
    · intro accepts
      exact absurd accepts blames.not_accepts

namespace ParseContext

variable {c : ParseContext} {step : Option Nat} {front behind : List Token} {schema : Schema}
  {i : Invocation}

theorem inputEnds_of_modifiers (wellFormed : ∀ w ∈ written, w.WellFormed)
    (ends : written = [] → InputEnds behind) :
    InputEnds (written.flatMap (·.tokens) ++ behind) := by
  cases written with
  | nil => exact ends rfl
  | cons w written =>
    have hKey := (wellFormed w List.mem_cons_self).key
    have hNext : nextKind ((w :: written).flatMap (·.tokens) ++ behind) = .modifierKey := hKey
    rw [InputEnds, hNext]
    exact ⟨rfl, by decide⟩

theorem takeHeading_lineWith (line : CommandFront c.grammar step front schema i)
    (wellFormed : ∀ w ∈ written, w.WellFormed) (ends : written = [] → InputEnds behind) :
    c.takeHeading step (lineWith front written behind) =
      c.takeModifiers schema i.command (written.flatMap (·.tokens) ++ behind) >>= fun p =>
        c.takeLineEnd i.command p.2 >>= fun after =>
          .ok (.command { i with modifiers := p.1 }, after) := by
  obtain ⟨hString, hReference⟩ := inputEnds_of_modifiers wellFormed ends
  exact takeHeading_of_front line hString hReference

/-- The last modifier with the first name that is not accepted is at fault for the line. -/
theorem takeHeading_of_blames {trouble : Trouble}
    (line : CommandFront c.grammar step front schema i)
    (wellFormed : ∀ v ∈ earlier ++ w :: later, v.WellFormed) (noMore : nextKind behind ≠ .modifierKey)
    (last : ∀ v ∈ later, v.name ≠ w.name)
    (blames : schema.Blames (lastSettings (earlier ++ w :: later)) w.name w.setting trouble) :
    c.takeHeading step (lineWith front (earlier ++ w :: later) behind) =
      .error ⟨⟨trouble, c.placeOf w.key (some i.command)⟩, behind⟩ := by
  rw [takeHeading_lineWith line wellFormed (by simp),
    takeModifiers_of_blames wellFormed noMore last blames]
  rfl

theorem lineOutcome_takeHeading (line : CommandFront c.grammar step front schema i)
    (wellFormed : ∀ w ∈ written, w.WellFormed) (ends : ModifiersEnd written behind) :
    LineOutcome c schema i written behind (c.takeHeading step (lineWith front written behind)) := by
  rcases schema.accepts_or_blames (lastSettings written) with accepts | ⟨key, value, trouble, blames⟩
  · rw [takeHeading_lineWith line wellFormed ends.inputEnds,
      takeModifiers_of_written wellFormed accepts ends.noMore]
    change LineOutcome c schema i written behind (c.takeLineEnd i.command behind >>= _)
    rcases hEnd : c.takeLineEnd i.command behind with e | after
    · exact .notEnded accepts hEnd
    · exact .taken accepts hEnd
  · obtain ⟨earlier, w, later, rfl, hSetting, hLast⟩ := exists_last_of_mem blames.mem
    obtain ⟨rfl, rfl⟩ := Prod.mk.inj hSetting
    rw [takeHeading_of_blames line wellFormed ends.noMore hLast blames]
    exact .refused rfl hLast blames

/-- A modifier whose name is written again behind it might as well not be there. -/
theorem takeHeading_drop (line : CommandFront c.grammar step front schema i)
    (wellFormed : ∀ v ∈ earlier ++ w :: later, v.WellFormed)
    (again : ∃ v ∈ later, v.name = w.name) (noMore : nextKind behind ≠ .modifierKey) :
    c.takeHeading step (lineWith front (earlier ++ w :: later) behind) =
      c.takeHeading step (lineWith front (earlier ++ later) behind) := by
  have hKept := wellFormed_drop wellFormed
  have hSome : earlier ++ later ≠ [] := by
    obtain ⟨v, hv, -⟩ := again
    exact List.ne_nil_of_mem (List.mem_append_right _ hv)
  rw [takeHeading_lineWith line wellFormed (by simp),
    takeHeading_lineWith line hKept (by simp [hSome]), takeModifiers_drop again wellFormed noMore]

/-- The first modifier that cannot be taken is at fault, whatever the others are. -/
theorem takeHeading_of_takeWritten_error {key : Token} {rest : List Token} {e : Stop}
    (line : CommandFront c.grammar step front schema i) (wellFormed : ∀ w ∈ written, w.WellFormed)
    (hKey : key.kind = .modifierKey) (fails : c.takeWritten (key :: rest) = .error e) :
    c.takeHeading step (lineWith front written (key :: rest)) = .error e := by
  have hNext : nextKind (key :: rest) = .modifierKey := hKey
  rw [takeHeading_lineWith line wellFormed (by simp [InputEnds, hNext, TokenKind.isString]),
    takeModifiers_of_takeWritten_error wellFormed fails]
  rfl

/-- **Of modifiers with one name the last one counts.** Behind the front of a command any modifiers
are written, each with a value that is not blank.

* The line succeeds where the settings that count are all accepted, and takes just these, in their
  order; else it fails on the first of them that is not, at the last modifier with its name.
* A modifier that is written again behind it makes no difference.
* If a modifier without a value or with a blank one follows, the line fails there.
* What the line comes to is what becomes of every text whose parse comes to it. -/
theorem takeHeading_of_modifiers (line : CommandFront c.grammar step front schema i)
    (wellFormed : ∀ w ∈ written, w.WellFormed) :
    (∀ behind, ModifiersEnd written behind →
      LineOutcome c schema i written behind (c.takeHeading step (lineWith front written behind)) ∧
      (∀ after, c.takeLineEnd i.command behind = .ok after →
        ((∃ taken, c.takeHeading step (lineWith front written behind) = .ok taken) ↔
          ∀ m ∈ lastSettings written, schema.Accepts m.1 m.2)) ∧
      ∀ earlier w later, written = earlier ++ w :: later → (∃ v ∈ later, v.name = w.name) →
        c.takeHeading step (lineWith front written behind) =
          c.takeHeading step (lineWith front (earlier ++ later) behind)) ∧
    (∀ key rest, key.kind = .modifierKey → nextKind rest ≠ .modifierValue →
      c.takeHeading step (lineWith front written (key :: rest)) =
        c.stop (.noValue key.text) key rest) ∧
    (∀ key value rest, key.kind = .modifierKey → value.kind = .modifierValue →
      Text.isBlankText value.text = true →
      c.takeHeading step (lineWith front written (key :: value :: rest)) =
        c.stop (.blankValue key.text) value rest) ∧
    ∀ text tokens behind, c.lines = Script.quotableLines text → Token.ofText text = .ok tokens →
      Visits c ⟨none, tokens⟩ ⟨step, lineWith front written behind⟩ →
      (∀ e, c.takeHeading step (lineWith front written behind) = .error e →
        Script.ofText c.grammar text = .error e.fault) ∧
      ∀ j after s, c.takeHeading step (lineWith front written behind) = .ok (.command j, after) →
        Script.ofText c.grammar text = .ok s → j ∈ s.invocations := by
  refine ⟨?_, ?_, ?_, ?_⟩
  · intro behind ends
    have hOutcome := lineOutcome_takeHeading line wellFormed ends
    refine ⟨hOutcome, ?_, ?_⟩
    · intro after ended
      exact hOutcome.isOk_iff ended
    · rintro earlier w later rfl again
      exact takeHeading_drop line wellFormed again ends.noMore
  · intro key rest hKey noValue
    exact takeHeading_of_takeWritten_error line wellFormed hKey
      (takeWritten_of_noValue hKey noValue)
  · intro key value rest hKey hValue blank
    exact takeHeading_of_takeWritten_error line wellFormed hKey
      (takeWritten_of_blank hKey hValue blank)
  · intro text tokens behind hLines hTokens visits
    obtain ⟨g, lines⟩ := c
    cases hLines
    have hName : nextKind (lineWith front written behind) = .commandName := by
      cases line with
      | front name => exact name
    constructor
    · intro e fails
      exact ofText_of_visits hTokens visits hName fails
    · intro j after s heading parsed
      exact mem_invocations_of_visits parsed hTokens visits heading

/-- A search in one place and of one time. -/
def weeklySearch : Schema where
  name := "SEARCH"
  modifiers := .ofList [("scope", .choice ["web"]), ("time_frame", .choice ["week"])]

/-- Two names, each of them twice: one is accepted the second time only, the other the first. -/
def crossedModifiers : List WrittenModifier :=
  [⟨⟨.modifierKey, "scope", 1, 15⟩, ⟨.modifierValue, "docs", 1, 23⟩⟩,
    ⟨⟨.modifierKey, "time-frame", 1, 28⟩, ⟨.modifierValue, "week", 1, 41⟩⟩,
    ⟨⟨.modifierKey, "scope", 1, 46⟩, ⟨.modifierValue, "web", 1, 54⟩⟩,
    ⟨⟨.modifierKey, "Time_Frame", 1, 58⟩, ⟨.modifierValue, "year", 1, 71⟩⟩]

theorem takeHeading_of_modifiers_of_crossed :
    ∃ (c : ParseContext) (front behind : List Token) (i : Invocation) (e : Stop),
      CommandFront c.grammar none front weeklySearch i ∧
      (∀ w ∈ crossedModifiers, w.WellFormed) ∧ ModifiersEnd crossedModifiers behind ∧
      Token.ofText "SEARCH: \"tea\" --scope=docs --time-frame=week --scope=web --Time_Frame=year\n" =
        .ok (lineWith front crossedModifiers behind) ∧
      LineOutcome c weeklySearch i crossedModifiers behind
        (c.takeHeading none (lineWith front crossedModifiers behind)) ∧
      c.takeHeading none (lineWith front (crossedModifiers.drop 1) behind) = .error e ∧
      e.fault.place.column = some 58 ∧ Script.ofText c.grammar
        "SEARCH: \"tea\" --scope=docs --time-frame=week --scope=web --Time_Frame=year\n" =
          .error e.fault := by
  generalize hText :
    "SEARCH: \"tea\" --scope=docs --time-frame=week --scope=web --Time_Frame=year\n" = text
  let c : ParseContext := ⟨.ofSchemas [weeklySearch], Script.quotableLines text⟩
  let front : List Token :=
    [⟨.commandName, "SEARCH", 1, 1⟩, ⟨.colon, ":", 1, 7⟩, ⟨.quotedString, "tea", 1, 9⟩]
  let behind : List Token := [⟨.newline, "\n", 1, 75⟩, ⟨.eof, "", 2, 1⟩]
  have hKnown : (Grammar.ofSchemas [weeklySearch]).find? "SEARCH" = some weeklySearch := rfl
  have hLine : CommandFront c.grammar none front weeklySearch
      ⟨"SEARCH", some (.literal ["tea"]), .empty, none, 1, 1⟩ :=
    .front rfl (by decide) hKnown rfl (.literal (by simp) (by decide)) (by simp)
  have hWellFormed : ∀ w ∈ crossedModifiers, w.WellFormed := by
    have hAll : ∀ w ∈ crossedModifiers, w.key.kind = .modifierKey ∧
        w.value.kind = .modifierValue ∧ Text.isBlankText w.value.text = false := by decide +kernel
    intro w hw
    obtain ⟨hKey, hValue, hBlank⟩ := hAll w hw
    exact ⟨hKey, hValue, hBlank⟩
  have hEnds : ModifiersEnd crossedModifiers behind := ⟨by decide, by simp [crossedModifiers]⟩
  have hTokens : Token.ofText text = .ok (lineWith front crossedModifiers behind) := by
    have hSame : (Token.ofText text).toOption = some (lineWith front crossedModifiers behind) := by
      subst hText
      decide +kernel
    exact Upshot.toOption_eq_some.mp hSame
  have hColumn : (match c.takeHeading none (lineWith front crossedModifiers behind) with
      | .ok _ => none
      | .error e => e.fault.place.column) = some 58 := by
    subst hText
    decide +kernel
  obtain ⟨hModifiers, -, -, hTexts⟩ := takeHeading_of_modifiers hLine hWellFormed
  obtain ⟨hOutcome, -, hDropped⟩ := hModifiers behind hEnds
  have hAgain := hDropped [] _ (crossedModifiers.drop 1) rfl
    ⟨⟨⟨.modifierKey, "scope", 1, 46⟩, ⟨.modifierValue, "web", 1, 54⟩⟩, by simp [crossedModifiers], rfl⟩
  rcases hFails : c.takeHeading none (lineWith front crossedModifiers behind) with e | taken
  · rw [hFails] at hColumn
    have hText := (hTexts text _ behind rfl hTokens .refl).1 e hFails
    exact ⟨c, front, behind, _, e, hLine, hWellFormed, hEnds, hTokens, hOutcome,
      hAgain.symm.trans hFails, hColumn, hText⟩
  · rw [hFails] at hColumn
    cases hColumn

end ParseContext

end Directive
