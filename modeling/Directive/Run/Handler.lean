import Directive.Run.Journal

/-!
# Handlers

The part of a program that does the work of commands. A handler has a state of its own; it may
write to the log. A pausing handler may give up control before it replies.
-/

namespace Directive

/-- What a handler does with a call. -/
structure Response (σ : Type) where
  outcome : Outcome
  records : List Record := []
  state : σ

abbrev Handler (σ : Type) := Call → σ → Response σ

/-- What is left of a call: a reply, or more after a pause, in which the state may change. -/
inductive Pending (σ : Type)
  | reply (o : Outcome)
  | pause (touch : σ → σ) (more : σ → Pending σ)
  | hang

/-- What a pausing handler does with a call at first. -/
structure Opening (σ : Type) where
  pending : Pending σ
  records : List Record := []
  state : σ

abbrev PausingHandler (σ : Type) := Call → σ → Opening σ

namespace Pending

variable {σ : Type}

/-- Some pauses, and then `last`. -/
def after (last : Pending σ) : Nat → Pending σ
  | 0 => last
  | n + 1 => .pause id fun _ => after last n

end Pending

namespace Handler

variable {σ : Type} (h : Handler σ)

/-- The handler that replies at once. -/
def pausing : PausingHandler σ := fun call s =>
  let r := h call s
  { pending := .reply r.outcome, records := r.records, state := r.state }

/-- The handler at work in a thread of its own: the caller hears of the reply a turn later. -/
def inThread : PausingHandler σ := fun call s =>
  let r := h call s
  { pending := Pending.after (.reply r.outcome) 1, records := r.records, state := r.state }

end Handler

end Directive
