/-!
# What comes of a loop

A loop without a bound of its own may come to a value, stop at an error, or go on for ever.
-/

namespace Directive

/-- What a computation comes to. One that is `endless` has no result at all. -/
inductive Upshot (ε α : Type)
  | error (e : ε)
  | ok (a : α)
  | endless
deriving DecidableEq

namespace Upshot

variable {ε ε' α β : Type}

def ofExcept : Except ε α → Upshot ε α
  | .error e => .error e
  | .ok a => .ok a

def map (f : α → β) : Upshot ε α → Upshot ε β
  | .error e => .error e
  | .ok a => .ok (f a)
  | .endless => .endless

def bind : Upshot ε α → (α → Upshot ε β) → Upshot ε β
  | .error e, _ => .error e
  | .ok a, f => f a
  | .endless, _ => .endless

def mapError (f : ε → ε') : Upshot ε α → Upshot ε' α
  | .error e => .error (f e)
  | .ok a => .ok a
  | .endless => .endless

def toOption : Upshot ε α → Option α
  | .ok a => some a
  | _ => none

theorem toOption_eq_some {u : Upshot ε α} {a : α} : u.toOption = some a ↔ u = .ok a := by
  cases u <;> simp [toOption]

theorem exists_of_isSome {u : Upshot ε α} (h : u.toOption.isSome = true) : ∃ a, u = .ok a := by
  obtain ⟨a, ha⟩ := Option.isSome_iff_exists.mp h
  exact ⟨a, toOption_eq_some.mp ha⟩

theorem exists_of_bind {u : Upshot ε α} {f : α → Option β} {b : β}
    (h : u.toOption.bind f = some b) : ∃ a, u = .ok a ∧ f a = some b := by
  obtain ⟨a, ha, hb⟩ := Option.bind_eq_some_iff.mp h
  exact ⟨a, toOption_eq_some.mp ha, hb⟩

theorem exists_of_map {u : Upshot ε α} {f : α → β} {b : β} (h : u.toOption.map f = some b) :
    ∃ a, u = .ok a ∧ f a = b := by
  obtain ⟨a, ha, hb⟩ := Option.map_eq_some_iff.mp h
  exact ⟨a, toOption_eq_some.mp ha, hb⟩

theorem ofExcept_eq_ok {x : Except ε α} {a : α} : ofExcept x = .ok a ↔ x = .ok a := by
  cases x <;> simp [ofExcept]

theorem ofExcept_ne_endless {x : Except ε α} : ofExcept x ≠ .endless := by
  cases x <;> exact nofun

theorem mapError_eq_ok {f : ε → ε'} {u : Upshot ε α} {a : α} : u.mapError f = .ok a ↔ u = .ok a := by
  cases u <;> simp [mapError]

theorem mapError_eq_endless {f : ε → ε'} {u : Upshot ε α} : u.mapError f = .endless ↔ u = .endless := by
  cases u <;> simp [mapError]

theorem mapError_eq_error {f : ε → ε'} {u : Upshot ε α} {e' : ε'} :
    u.mapError f = .error e' ↔ ∃ e, u = .error e ∧ f e = e' := by
  cases u <;> simp [mapError]

end Upshot

end Directive
