import Directive.Run.Step

/-!
# Worlds

What a run happens in: the state of the handler and of what goes on beside the run, and the journal.
-/

namespace Directive

/-- A look at the stop signal. Others may have changed the state in the meantime. -/
abbrev Signal (σ : Type) := σ → Bool × σ

def Signal.never {σ : Type} : Signal σ := fun s => (false, s)

structure World (σ : Type) where
  outer : σ
  journal : Journal := []

namespace World

variable {σ : Type}

def add (w : World σ) (events : List Event) : World σ := { w with journal := w.journal ++ events }

def note (w : World σ) (records : List Record) : World σ := w.add (records.map .noted)

end World

abbrev Run (σ α : Type) := ExceptT Escape (StateM (World σ)) α

def note {σ : Type} (records : List Record) : Run σ Unit := modify (·.note records)

end Directive
