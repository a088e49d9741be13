import Directive.Grammar.Basic
import Directive.Proofs.Script.Derivation

/-!
# Schemas that compare as equal

Modifiers are compared by name and choices as sets, so that no order counts. Bounds are compared as
numbers: both zeros are the same.

* `Domain.Same`, `Schema.Same`: the comparisons;
* `Domain.Same.refusal?_eq`: domains that compare as equal refuse the same settings, for the same
  reasons;
* `Schema.Same.accepts`, `Schema.Same.label_eq`: what a parse takes from a schema is the same.
-/

namespace Directive

/-- Equality of numbers. What is not a number only equals itself as a value. -/
def Binary64.Same (x y : Binary64) : Prop := x = y ∨ x.le y = true ∧ y.le x = true

theorem Binary64.le_iff {x y : Binary64} :
    x.le y = true ↔ x.isNaN = false ∧ y.isNaN = false ∧ x.rank ≤ y.rank := by
  unfold Binary64.le
  simp [and_assoc]

namespace Binary64.Same

variable {x y : Binary64}

theorem rank_eq (h : x.Same y) : x.isNaN = y.isNaN ∧ x.rank = y.rank := by
  obtain rfl | ⟨below, above⟩ := h
  · exact ⟨rfl, rfl⟩
  · obtain ⟨hx, hy, hBelow⟩ := le_iff.mp below
    obtain ⟨-, -, hAbove⟩ := le_iff.mp above
    exact ⟨hx.trans hy.symm, by omega⟩

theorem le_left (h : x.Same y) (z : Binary64) : x.le z = y.le z := by
  obtain ⟨hNaN, hRank⟩ := h.rank_eq
  rw [Binary64.le, Binary64.le, hNaN, hRank]

theorem le_right (h : x.Same y) (z : Binary64) : z.le x = z.le y := by
  obtain ⟨hNaN, hRank⟩ := h.rank_eq
  rw [Binary64.le, Binary64.le, hNaN, hRank]

end Binary64.Same

inductive Domain.Same : Domain → Domain → Prop
  | freeText : Same .freeText .freeText
  | choice {choices others : List String} (same : ∀ t, t ∈ choices ↔ t ∈ others) :
      Same (.choice choices) (.choice others)
  | range {minimum maximum least most : Binary64} (low : minimum.Same least)
      (high : maximum.Same most) : Same (.range minimum maximum) (.range least most)
  | listOf {item other : Domain} (items : Same item other) : Same (.listOf item) (.listOf other)
  | weights {keys others : List String} (same : ∀ t, t ∈ keys ↔ t ∈ others) :
      Same (.weights keys) (.weights others)
  | custom (name : String) (check : Setting → Option String) (description : String) :
      Same (.custom name check description) (.custom name check description)

namespace Domain.Same

theorem refl (d : Domain) : d.Same d := by
  induction d with
  | freeText => exact .freeText
  | choice choices => exact .choice fun _ => .rfl
  | range minimum maximum => exact .range (.inl rfl) (.inl rfl)
  | listOf item ih => exact .listOf ih
  | weights keys => exact .weights fun _ => .rfl
  | custom name check description => exact .custom name check description

theorem refusal?_eq {d e : Domain} (h : d.Same e) (s : Setting) : d.refusal? s = e.refusal? s := by
  induction h generalizing s with
  | freeText => rfl
  | choice same => cases s <;> simp only [Domain.refusal?, same]
  | range low high =>
    simp only [Domain.refusal?]
    cases s <;> simp only [Domain.rangeRefusal?, low.le_left, high.le_right]
  | listOf _ ih => cases s <;> simp only [Domain.refusal?, ih]
  | weights same => cases s <;> simp only [Domain.refusal?, same]
  | custom => rfl

end Domain.Same

structure Schema.Same (s s' : Schema) : Prop where
  name : s.name = s'.name
  requiresInput : s.requiresInput = s'.requiresInput
  modifiers : ∀ key, Option.Rel Domain.Same (s.modifiers.get? key) (s'.modifiers.get? key)
  slotLabel : s.slotLabel = s'.slotLabel
  description : s.description = s'.description

namespace Schema.Same

variable {s s' : Schema}

theorem refl (s : Schema) : s.Same s where
  name := rfl
  requiresInput := rfl
  modifiers key := by
    cases s.modifiers.get? key with
    | none => exact .none
    | some d => exact .some (.refl d)
  slotLabel := rfl
  description := rfl

theorem label_eq (h : s.Same s') : s.label = s'.label := by
  rw [Schema.label, Schema.label, h.slotLabel, h.name]

theorem accepts (h : s.Same s') {key : String} {value : Setting} (accepted : s.Accepts key value) :
    s'.Accepts key value := by
  obtain ⟨d, hDeclared, hTaken⟩ := accepted
  have hSame := h.modifiers key
  rw [hDeclared] at hSame
  cases hOther : s'.modifiers.get? key with
  | none =>
    rw [hOther] at hSame
    cases hSame
  | some e =>
    rw [hOther] at hSame
    cases hSame with
    | some same => exact ⟨e, hOther, same.refusal?_eq value ▸ hTaken⟩

end Schema.Same

end Directive
