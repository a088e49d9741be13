import Directive.Proofs.Run.Trace

/-!
# Ways through programs

* `Program.Comes`: the programs that a program comes to as it is told how its calls ended;
* `Comes.trans`: ways one after another;
* `comes_bind`, `call_of_task_bind`: a way through two programs is in the first or in the second.
-/

namespace Directive.Program

variable {α β : Type}

/-- What is left of a program that has been told how some calls ended. -/
inductive Comes : Program α → List (Call × Reply) → Program α → Prop
  | here {p : Program α} : Comes p [] p
  | note {records : List Record} {next q : Program α} {calls : List (Call × Reply)}
      (rest : Comes next calls q) : Comes (.note records next) calls q
  | look {next : Bool → Program α} {q : Program α} {calls : List (Call × Reply)} (stop : Bool)
      (rest : Comes (next stop) calls q) : Comes (.look next) calls q
  | call {c : Call} {next : Reply → Program α} {q : Program α} {calls : List (Call × Reply)}
      (r : Reply) (rest : Comes (next r) calls q) : Comes (.call c next) ((c, r) :: calls) q

namespace Comes

variable {p q : Program α} {front back : List (Call × Reply)}

theorem trans {q' : Program α} (h : Comes p front q) (hRest : Comes q back q') :
    Comes p (front ++ back) q' := by
  induction h with
  | here => exact hRest
  | note _ ih => exact .note (ih hRest)
  | look stop _ ih => exact .look stop (ih hRest)
  | call r _ ih => exact .call r (ih hRest)

theorem noted {records : List Record} {next : Program α} (h : Comes p front (.note records next)) :
    Comes p front next := by
  have hNext := h.trans (.note .here)
  rwa [List.append_nil] at hNext

theorem looked {next : Bool → Program α} (h : Comes p front (.look next)) (stop : Bool) :
    Comes p front (next stop) := by
  have hNext := h.trans (.look stop .here)
  rwa [List.append_nil] at hNext

theorem called {c : Call} {next : Reply → Program α} (h : Comes p front (.call c next))
    (r : Reply) : Comes p (front ++ [(c, r)]) (next r) :=
  h.trans (.call r .here)

theorem ends {a : α} (h : Comes p front (.done a)) : Ends p front a := by
  generalize hDone : Program.done a = q at h
  induction h with
  | here =>
    subst hDone
    exact .done
  | note _ ih => exact .note (ih hDone)
  | look stop _ ih => exact .look stop (ih hDone)
  | call r _ ih => exact .call r (ih hDone)

end Comes

/-- A way through a program and the one after it is still in the first, or in the second. -/
theorem comes_bind {p : Program α} {f : α → Program β} {calls : List (Call × Reply)}
    {q : Program β} (h : Comes (p.bind f) calls q) :
    (∃ p', Comes p calls p' ∧ q = p'.bind f) ∨
      ∃ front a back, Ends p front a ∧ Comes (f a) back q ∧ calls = front ++ back := by
  induction p generalizing calls with
  | done a => exact .inr ⟨[], a, calls, .done, h, rfl⟩
  | note records next ih =>
    cases h with
    | here => exact .inl ⟨.note records next, .here, rfl⟩
    | note rest =>
      obtain ⟨p', hWay, rfl⟩ | ⟨front, a, back, hEnds, hRest, rfl⟩ := ih rest
      · exact .inl ⟨p', .note hWay, rfl⟩
      · exact .inr ⟨front, a, back, .note hEnds, hRest, rfl⟩
  | look next ih =>
    cases h with
    | here => exact .inl ⟨.look next, .here, rfl⟩
    | look stop rest =>
      obtain ⟨p', hWay, rfl⟩ | ⟨front, a, back, hEnds, hRest, rfl⟩ := ih stop rest
      · exact .inl ⟨p', .look stop hWay, rfl⟩
      · exact .inr ⟨front, a, back, .look stop hEnds, hRest, rfl⟩
  | call c next ih =>
    cases h with
    | here => exact .inl ⟨.call c next, .here, rfl⟩
    | call r rest =>
      obtain ⟨p', hWay, rfl⟩ | ⟨front, a, back, hEnds, hRest, rfl⟩ := ih r rest
      · exact .inl ⟨p', .call r hWay, rfl⟩
      · exact .inr ⟨(c, r) :: front, a, back, .call r hEnds, hRest, rfl⟩

/-- A call on a way through two tasks is in the first one, or in the second. -/
theorem call_of_task_bind {t : Task α} {f : α → Task β} {calls : List (Call × Reply)} {c : Call}
    {next : Reply → Program (Except Escape β)}
    (h : Comes (t >>= f : Task β) calls (.call c next)) :
    (∃ next', Comes t calls (.call c next')) ∨
      ∃ front a back, Ends t front (.ok a) ∧ Comes (f a) back (.call c next) ∧
        calls = front ++ back := by
  change Comes (Program.bind t (ExceptT.bindCont f)) calls (.call c next) at h
  have hSecond {front back : List (Call × Reply)} {a : Except Escape α} (hEnds : Ends t front a)
      (hRest : Comes (ExceptT.bindCont f a : Program _) back (.call c next)) :
      ∃ front' a' back', Ends t front' (.ok a') ∧ Comes (f a') back' (.call c next) ∧
        front ++ back = front' ++ back' := by
    cases a with
    | ok a => exact ⟨front, a, back, hEnds, hRest, rfl⟩
    | error e => cases hRest
  obtain ⟨p, hWay, hCall⟩ | ⟨front, a, back, hEnds, hRest, rfl⟩ := comes_bind h
  · cases p with
    | done a =>
      have hRest : Comes (ExceptT.bindCont f a : Program _) [] (.call c next) := hCall ▸ .here
      obtain ⟨front, a, back, hParts⟩ := hSecond hWay.ends hRest
      rw [List.append_nil] at hParts
      exact .inr ⟨front, a, back, hParts⟩
    | note records p => cases hCall
    | look p => cases hCall
    | call c' p =>
      cases hCall
      exact .inl ⟨p, hWay⟩
  · exact .inr (hSecond hEnds hRest)

end Directive.Program
