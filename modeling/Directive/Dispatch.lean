import Directive.Missing
import Directive.Run.Handler

/-!
# Dispatch

A handler that hands each command to its own route, and a command without a route to a fallback if
there is one. Routes are kept in the order in which their commands first came.
-/

namespace Directive

/-- What is done for one command, with an input and modifiers. -/
abbrev Route (σ : Type) := Value → Table Setting → σ → Response σ

structure Dispatch (σ : Type) where
  routes : Table (Route σ) := .empty
  fallback : Option (Handler σ) := none

namespace Dispatch

variable {σ : Type} (d : Dispatch σ)

def register (command : String) (route : Route σ) : Dispatch σ :=
  { d with routes := d.routes.put command route }

def commands : List String := d.routes.keys

/-- What a call of a command fails with that has neither a route nor a fallback. -/
def unrouted (command : String) : Outcome :=
  .threw (.failure ⟨.lookup, [.str (Missing.handler command d.commands).message]⟩)

def handler : Handler σ := fun call s =>
  match d.routes.get? call.command, d.fallback with
  | some route, _ => route call.input call.modifiers s
  | none, some fallback => fallback call s
  | none, none => { outcome := d.unrouted call.command, state := s }

end Dispatch

end Directive
