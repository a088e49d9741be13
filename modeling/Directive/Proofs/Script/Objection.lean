import Directive.Proofs.Script.Line

/-!
# What is wrong with modifiers

* `Schema.Objects`: a modifier that a schema does not accept, and why;
* `Schema.Blames`: the first of some modifiers that is not accepted;
* `Schema.accepts_or_blames`: all are accepted, or there is a first one that is not;
* `Schema.validateAll_eq_error_iff`: a validation fails on the first one, where its key stands;
* `exists_last_of_mem`: a setting that counts is that of the last modifier with its name;
* `error_of_takeModifiers`: modifiers fail where one has no value, or else at the last modifier with
  the first name that is not accepted.
-/

namespace Directive.Schema

/-- A modifier is not accepted: its key is not declared, or the domain of its key refuses it. -/
inductive Objects (s : Schema) (key : String) (value : Setting) : Trouble → Prop
  | unknownKey (undeclared : s.modifiers.get? key = none) : Objects s key value (s.unknownKey key)
  | refused {d : Domain} {r : Refusal} (declared : s.modifiers.get? key = some d)
      (refusal : d.refusal? value = some r) : Objects s key value (s.refused key value d r)

/-- The first of some modifiers that is not accepted, and what is wrong with it. -/
def Blames (s : Schema) (ms : List (String × Setting)) (key : String) (value : Setting)
    (trouble : Trouble) : Prop :=
  ∃ earlier later, ms = earlier ++ (key, value) :: later ∧ (∀ m ∈ earlier, s.Accepts m.1 m.2) ∧
    s.Objects key value trouble

variable {s : Schema} {ms : List (String × Setting)} {key : String} {value : Setting}
  {trouble : Trouble} {placeOf : String → Place} {f : Fault}

theorem objection?_eq_some_iff :
    s.objection? key value = some trouble ↔ s.Objects key value trouble := by
  constructor
  · intro h
    unfold objection? at h
    split at h
    · rename_i hUndeclared
      cases h
      exact .unknownKey hUndeclared
    · rename_i d hDeclared
      obtain ⟨r, hRefusal, rfl⟩ := Option.map_eq_some_iff.mp h
      exact .refused hDeclared hRefusal
  · intro h
    unfold objection?
    cases h with
    | unknownKey undeclared => rw [undeclared]
    | refused declared refusal =>
      rw [declared]
      exact congrArg (Option.map _) refusal

theorem Objects.not_accepts (h : s.Objects key value trouble) : ¬ s.Accepts key value := by
  intro hAccepts
  rw [← s.objection?_eq_none_iff, objection?_eq_some_iff.mpr h] at hAccepts
  cases hAccepts

/-- What is wrong with a modifier is a fault of the modifier, under its own key. -/
theorem Objects.name_eq (h : s.Objects key value trouble) :
    trouble.name = "ValidationError" ∧
      ∃ shown domain objection, trouble = .invalid s.name key shown domain objection := by
  cases h with
  | unknownKey => exact ⟨rfl, _, _, _, rfl⟩
  | refused => exact ⟨rfl, _, _, _, rfl⟩

theorem Blames.mem (h : s.Blames ms key value trouble) : (key, value) ∈ ms := by
  obtain ⟨earlier, later, rfl, -, -⟩ := h
  exact List.mem_append_right _ List.mem_cons_self

theorem Blames.objects (h : s.Blames ms key value trouble) : s.Objects key value trouble := by
  obtain ⟨_, _, -, -, objects⟩ := h
  exact objects

theorem Blames.not_accepts (h : s.Blames ms key value trouble) :
    ¬ ∀ m ∈ ms, s.Accepts m.1 m.2 := by
  intro hAll
  exact h.objects.not_accepts (hAll _ h.mem)

theorem Blames.cons {m : String × Setting} (accepts : s.Accepts m.1 m.2)
    (h : s.Blames ms key value trouble) : s.Blames (m :: ms) key value trouble := by
  obtain ⟨earlier, later, rfl, before, objects⟩ := h
  exact ⟨m :: earlier, later, rfl, List.forall_mem_cons.mpr ⟨accepts, before⟩, objects⟩

/-- A validation looks at one modifier after another, up to the first that is not accepted. -/
theorem firstObjection?_eq_some_iff :
    s.firstObjection? placeOf ms = some f ↔
      ∃ key value trouble, s.Blames ms key value trouble ∧ f = ⟨trouble, placeOf key⟩ := by
  induction ms with
  | nil =>
    constructor
    · intro h
      cases h
    · rintro ⟨key, value, trouble, blames, -⟩
      cases blames.mem
  | cons m ms ih =>
    obtain ⟨key₁, value₁⟩ := m
    rw [firstObjection?]
    rcases hFirst : s.objection? key₁ value₁ with _ | trouble₁
    · have hAccepts := s.objection?_eq_none_iff.mp hFirst
      rw [ih]
      constructor
      · rintro ⟨key, value, trouble, blames, rfl⟩
        exact ⟨key, value, trouble, blames.cons hAccepts, rfl⟩
      · rintro ⟨key, value, trouble, ⟨earlier, later, hSplit, before, objects⟩, rfl⟩
        cases earlier with
        | nil =>
          cases hSplit
          exact absurd hAccepts objects.not_accepts
        | cons m earlier =>
          cases hSplit
          exact ⟨key, value, trouble, ⟨earlier, later, rfl,
            (List.forall_mem_cons.mp before).2, objects⟩, rfl⟩
    · have hObjects := objection?_eq_some_iff.mp hFirst
      constructor
      · rintro ⟨⟩
        exact ⟨key₁, value₁, trouble₁, ⟨[], ms, rfl, List.forall_mem_nil _, hObjects⟩, rfl⟩
      · rintro ⟨key, value, trouble, ⟨earlier, later, hSplit, before, objects⟩, rfl⟩
        cases earlier with
        | nil =>
          cases hSplit
          rw [objection?_eq_some_iff.mpr objects] at hFirst
          cases hFirst
          rfl
        | cons m earlier =>
          cases hSplit
          exact absurd (before _ List.mem_cons_self) hObjects.not_accepts

theorem accepts_or_blames (s : Schema) (ms : List (String × Setting)) :
    (∀ m ∈ ms, s.Accepts m.1 m.2) ∨ ∃ key value trouble, s.Blames ms key value trouble := by
  rcases hFirst : s.firstObjection? (fun _ => .unknown) ms with _ | f
  · exact .inl (s.firstObjection?_eq_none_iff.mp hFirst)
  · obtain ⟨key, value, trouble, blames, -⟩ := firstObjection?_eq_some_iff.mp hFirst
    exact .inr ⟨key, value, trouble, blames⟩

theorem validateAll_eq_error_iff {t : Table Setting} :
    s.validateAll t placeOf = .error f ↔
      ∃ key value trouble, s.Blames t.entries key value trouble ∧ f = ⟨trouble, placeOf key⟩ := by
  rw [← firstObjection?_eq_some_iff, validateAll]
  cases s.firstObjection? placeOf t.entries <;> simp

end Directive.Schema

namespace Directive

open ParseContext (WrittenModifier)

variable {written earlier later : List WrittenModifier} {w : WrittenModifier}

theorem exists_last_of_mem {m : String × Setting} (h : m ∈ lastSettings written) :
    ∃ earlier w later, written = earlier ++ w :: later ∧ m = (w.name, w.setting) ∧
      ∀ v ∈ later, v.name ≠ w.name := by
  induction written with
  | nil => cases h
  | cons w written ih =>
    have hLater (h : m ∈ lastSettings written) : ∃ earlier v later,
        w :: written = earlier ++ v :: later ∧ m = (v.name, v.setting) ∧
          ∀ u ∈ later, u.name ≠ v.name := by
      obtain ⟨earlier, v, later, rfl, hSetting, hLast⟩ := ih h
      exact ⟨w :: earlier, v, later, rfl, hSetting, hLast⟩
    unfold lastSettings at h
    split at h
    · exact hLater h
    · rename_i hOnce
      rcases List.mem_cons.mp h with rfl | h
      · refine ⟨[], w, written, rfl, rfl, ?_⟩
        intro v hv hName
        apply hOnce
        exact List.any_eq_true.mpr ⟨v, hv, decide_eq_true hName⟩
      · exact hLater h

/-- From the end, the last modifier with a name is the first one. -/
theorem find?_last (last : ∀ v ∈ later, v.name ≠ w.name) :
    (earlier ++ w :: later).reverse.find? (fun v => decide (v.name = w.name)) = some w := by
  have hLater : later.reverse.find? (fun v => decide (v.name = w.name)) = none := by
    rw [List.find?_eq_none]
    intro v hv hName
    exact last v (List.mem_reverse.mp hv) (of_decide_eq_true hName)
  rw [List.reverse_append, List.reverse_cons, List.append_assoc, List.find?_append, hLater,
    Option.none_or, List.singleton_append, List.find?_cons_of_pos]
  exact decide_eq_true rfl

namespace ParseContext

variable {c : ParseContext} {command : String}

theorem placeOfKey_last (last : ∀ v ∈ later, v.name ≠ w.name) :
    c.placeOfKey command (earlier ++ w :: later) w.name = c.placeOf w.key (some command) := by
  have hFound := @find?_last earlier later w last
  unfold WrittenModifier.name at hFound
  rw [placeOfKey, WrittenModifier.name, hFound]

theorem error_of_takeModifiers {schema : Schema} {ts : List Token} {e : Stop}
    (h : c.takeModifiers schema command ts = .error e) :
    c.takeWritten ts = .error e ∨ ∃ earlier w later rest trouble,
      c.takeWritten ts = .ok (earlier ++ w :: later, rest) ∧ (∀ v ∈ later, v.name ≠ w.name) ∧
        schema.Blames (lastSettings (earlier ++ w :: later)) w.name w.setting trouble ∧
        e = ⟨⟨trouble, c.placeOf w.key (some command)⟩, rest⟩ := by
  unfold takeModifiers at h
  rcases hWritten : c.takeWritten ts with e' | ⟨written, rest⟩
  · rw [hWritten] at h
    cases h
    exact .inl rfl
  rw [hWritten] at h
  dsimp only at h
  rcases hVerdict : schema.validateAll (settings written) (c.placeOfKey command written) with f | t
  · rw [hVerdict] at h
    cases h
    obtain ⟨key, value, trouble, blames, rfl⟩ := Schema.validateAll_eq_error_iff.mp hVerdict
    rw [entries_settings] at blames
    obtain ⟨earlier, w, later, rfl, hSetting, last⟩ := exists_last_of_mem blames.mem
    obtain ⟨rfl, rfl⟩ := Prod.mk.inj hSetting
    exact .inr ⟨earlier, w, later, rest, trouble, rfl, last, blames, by rw [placeOfKey_last last]⟩
  · rw [hVerdict] at h
    cases h

end ParseContext

end Directive
