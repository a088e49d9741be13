import Mathlib.Data.List.Forall2
import Directive.Data.Reading

/-!
# When a reading succeeds

A reading of a whole succeeds if those of its parts do.

* `Reading.map_eq_ok_iff`, `Reading.under_eq_ok_iff`, `Reading.both_eq_ok_iff`,
  `Reading.bind_eq_ok_iff`: the ways to put readings together;
* `readEach_eq_ok_iff`, `cases_of_field`: the items of a list, and the fields of an object.
-/

namespace Directive

namespace Reading

variable {α β : Type}

theorem map_eq_ok_iff {f : α → β} {r : Reading α} {b : β} :
    r.map f = .ok b ↔ ∃ a, r = .ok a ∧ f a = b := by
  cases r <;> simp [Reading.map]

theorem under_eq_ok_iff {s : PathStep} {r : Reading α} {a : α} : r.under s = .ok a ↔ r = .ok a := by
  cases r <;> simp [Reading.under]

theorem both_eq_ok_iff {r : Reading α} {s : Reading β} {p : α × β} :
    r.both s = .ok p ↔ r = .ok p.1 ∧ s = .ok p.2 := by
  cases r <;> cases s <;> simp [Reading.both, Prod.ext_iff]

theorem bind_eq_ok_iff {f : α → Reading β} {r : Reading α} {b : β} :
    r >>= f = .ok b ↔ ∃ a, r = .ok a ∧ f a = .ok b := by
  cases r <;> simp [bind, Except.bind]

end Reading

theorem readEach_eq_ok_iff {α β : Type} {step : α → PathStep} {read : α → Reading β} {as : List α}
    {bs : List β} :
    readEach step read as = .ok bs ↔ List.Forall₂ (fun a b => read a = .ok b) as bs := by
  induction as generalizing bs with
  | nil => simp [readEach, eq_comm]
  | cons a as ih =>
    simp only [readEach, Reading.map_eq_ok_iff, Reading.both_eq_ok_iff, Reading.under_eq_ok_iff, ih,
      List.forall₂_cons_left_iff]
    constructor
    · rintro ⟨⟨b, bs⟩, ⟨hFirst, hRest⟩, rfl⟩
      exact ⟨b, bs, hFirst, hRest, rfl⟩
    · rintro ⟨b, bs, hFirst, hRest, rfl⟩
      exact ⟨(b, bs), ⟨hFirst, hRest⟩, rfl⟩

/-- Each value that was read comes from one of the items. -/
theorem exists_of_readEach {α β : Type} {step : α → PathStep} {read : α → Reading β} {as : List α}
    {bs : List β} (h : readEach step read as = .ok bs) {b : β} (hb : b ∈ bs) :
    ∃ a ∈ as, read a = .ok b := by
  have hAll := readEach_eq_ok_iff.mp h
  clear h
  induction hAll with
  | nil => cases hb
  | @cons a b' as bs hFirst _ ih =>
    obtain rfl | hb := List.mem_cons.mp hb
    · exact ⟨a, List.mem_cons_self, hFirst⟩
    · obtain ⟨a', ha', hRead⟩ := ih hb
      exact ⟨a', List.mem_cons_of_mem a ha', hRead⟩

/-- The value of a field is read, or it is the default. -/
theorem cases_of_field {α : Type} {fields : List (String × Json)} {name : String}
    {absent : Option α} {read : Json → Reading α} {a : α}
    (h : field fields name absent read = .ok a) :
    (∃ j, lastValue? fields name = some j ∧ read j = .ok a) ∨
      lastValue? fields name = none ∧ absent = some a := by
  unfold field at h
  split at h
  · rename_i j hValue
    exact .inl ⟨j, hValue, Reading.under_eq_ok_iff.mp h⟩
  · rename_i hNone
    cases h
    exact .inr ⟨hNone, rfl⟩
  · cases h

theorem field_of_value {α : Type} {fields : List (String × Json)} {name : String}
    {absent : Option α} {read : Json → Reading α} {j : Json} {a : α}
    (value : lastValue? fields name = some j) (h : read j = .ok a) :
    field fields name absent read = .ok a := by
  unfold field
  rw [value]
  exact Reading.under_eq_ok_iff.mpr h

theorem noOthers_of_known {fields : List (String × Json)} {known : List String}
    (h : ∀ f ∈ fields, f.1 ∈ known) : noOthers fields known = .ok () := by
  have hNone : fields.filter (·.1 ∉ known) = [] := by
    rw [List.filter_eq_nil_iff]
    intro f hf
    simpa using h f hf
  unfold noOthers
  rw [hNone]
  rfl

theorem readTexts_of_texts {origin : Origin} {least : Nat} {texts : List String}
    (h : least ≤ texts.length) : readTexts origin least (.arr (texts.map .str)) = .ok texts := by
  have hEach (k : Nat) : readEach (fun (p : Json × Nat) => .index p.2) (fun p => readText p.1)
      ((texts.map Json.str).zipIdx k) = .ok texts := by
    rw [readEach_eq_ok_iff]
    clear h
    induction texts generalizing k with
    | nil => exact .nil
    | cons text texts ih => exact .cons rfl (ih (k + 1))
  refine Reading.bind_eq_ok_iff.mpr ⟨texts, hEach 0, ?_⟩
  rw [if_neg (Nat.not_lt.mpr h)]

end Directive
