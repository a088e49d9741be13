import Directive.Proofs.Run.Account
import Directive.Proofs.Run.Calls

/-!
# What an item has done when it comes to a step

An item that comes to a step has called just the commands in front of it, in the order of the text,
and the slots of its chains hold what these calls returned.

* `callsBefore`, `KeepsReturned`: the calls in front of a step, and the slots that they filled;
* `returns_of_ofNode`: the calls of a step that has a value;
* `Reaches.reached`: an item that has come to a step;
* `FailedAt.unique`: the number of calls tells which command it has come to.
-/

namespace Directive

open Node (allInvocations)
open Program (Ends StepEnd ofNode ofSteps ofItem perform stepEnd started)

/-- How many commands stand in front of the step that the last of some chains has come to. -/
def callsBefore (levels : List Level) : Nat :=
  (levels.flatMap fun level => allInvocations level.before).length

@[simp]
theorem callsBefore_append (outer inner : List Level) :
    callsBefore (outer ++ inner) = callsBefore outer + callsBefore inner := by
  simp [callsBefore]

@[simp]
theorem callsBefore_singleton (level : Level) :
    callsBefore [level] = (allInvocations level.before).length := by
  simp [callsBefore]

@[simp]
theorem callsBefore_cons (level : Level) (deeper : List Level) :
    callsBefore (level :: deeper) = (allInvocations level.before).length + callsBefore deeper := by
  simp [callsBefore]

theorem allInvocations_append (front back : List Node) :
    allInvocations (front ++ back) = allInvocations front ++ allInvocations back := by
  induction front with
  | nil => rfl
  | cons n front ih => rw [List.cons_append, allInvocations, allInvocations, ih, List.append_assoc]

theorem allInvocations_concat (before : List Node) (step : Node) :
    allInvocations (before ++ [step]) = allInvocations before ++ step.invocations := by
  rw [allInvocations_append, allInvocations, allInvocations, List.append_nil]

/-- Each slot of a chain that has come behind some steps holds what the last call of its step
returned; `front` calls were made in front of the chain. -/
def KeepsReturned (exchanges : List (Call × Outcome)) (front : Nat) (before : List Node)
    (slots : List Slot) : Prop :=
  ∀ k slot, slots[k]? = some slot → ∃ m call,
    m + 1 = front + (allInvocations (before.take (k + 1))).length ∧
      exchanges[m]? = some (call, .returned slot.value)

/-- Chains inside each other, outermost first, whose slots hold what calls returned. -/
inductive Kept (exchanges : List (Call × Outcome)) : List Level → Prop
  | none : Kept exchanges []
  | inside {outer : List Level} {level : Level} (around : Kept exchanges outer)
      (here : KeepsReturned exchanges (callsBefore outer) level.before level.slots) :
      Kept exchanges (outer ++ [level])

section Lists

variable {exchanges more : List (Call × Outcome)} {front : Nat} {before : List Node}
  {slots : List Slot} {levels : List Level}

theorem AllReturned.append (h : AllReturned exchanges) (hMore : AllReturned more) :
    AllReturned (exchanges ++ more) :=
  List.forall_mem_append.mpr ⟨h, hMore⟩

theorem KeepsReturned.append (h : KeepsReturned exchanges front before slots)
    (more : List (Call × Outcome)) : KeepsReturned (exchanges ++ more) front before slots := by
  intro k slot hSlot
  obtain ⟨m, call, hCount, hCall⟩ := h k slot hSlot
  refine ⟨m, call, hCount, ?_⟩
  rw [List.getElem?_append_left (List.getElem?_eq_some_iff.mp hCall).1, hCall]

theorem Kept.append (h : Kept exchanges levels) (more : List (Call × Outcome)) :
    Kept (exchanges ++ more) levels := by
  induction h with
  | none => exact .none
  | inside _ here ih => exact .inside ih (here.append more)

/-- A chain goes on behind a step whose last call has just returned. -/
theorem KeepsReturned.concat (h : KeepsReturned exchanges front before slots)
    (filled : slots.length = before.length) {step : Node} {slot : Slot} {call : Call}
    (count : exchanges.length = front + (allInvocations (before ++ [step])).length)
    (last : exchanges.getLast? = some (call, .returned slot.value)) :
    KeepsReturned exchanges front (before ++ [step]) (slots ++ [slot]) := by
  intro k other hOther
  by_cases hk : k < slots.length
  · rw [List.getElem?_append_left hk] at hOther
    rw [List.take_append_of_le_length (by omega)]
    exact h k other hOther
  · have hLast : k = slots.length := by
      have hBound := (List.getElem?_eq_some_iff.mp hOther).1
      rw [List.length_append, List.length_singleton] at hBound
      omega
    subst hLast
    rw [List.getElem?_append_right (Nat.le_refl _), Nat.sub_self] at hOther
    cases Option.some.inj hOther
    rw [List.take_of_length_le (by simp [filled])]
    rw [List.getLast?_eq_getElem?] at last
    have hBound := (List.getElem?_eq_some_iff.mp last).1
    exact ⟨exchanges.length - 1, call, by omega, last⟩

end Lists

/-- Calls that have all returned, the last of them with the given value; there are `count` of them. -/
structure Returns (count : Nat) (exchanges : List (Call × Outcome)) (value : Value) : Prop where
  length : exchanges.length = count
  returned : AllReturned exchanges
  last : ∃ call, exchanges.getLast? = some (call, .returned value)

theorem replied_injective : Function.Injective replied := by
  rintro ⟨call, o⟩ ⟨call', o'⟩ h
  cases h
  rfl

theorem Sound.first {step : Option Nat} {n : Node} {nodes : List Node}
    (h : Sound step (n :: nodes)) : Sound step [n] := by
  cases h with
  | command earlier _ => exact .command earlier .nil
  | chain nonempty inner _ => exact .chain nonempty inner .nil

theorem ChainRun.result_fill (run : ChainRun) (index : Nat) (step : Node) (value : Value) :
    (run.fill index step value).result = value := by
  have hLast : (run.fill index step value).table.last? =
      some ⟨index, step.label, step.command, value⟩ := List.getLast?_concat
  rw [ChainRun.result, hLast]

section Returned

variable {r : Resolver}

theorem ends_ofSteps_nil {run run' : ChainRun} (running : run.state = .running) {index : Nat}
    {calls : List (Call × Reply)} (h : (ofSteps r index [] run).Ends calls (.ok (some run'))) :
    calls = [] ∧ run' = { run with state := .completed } := by
  rw [Program.ofSteps_nil r running] at h
  cases h with
  | note rest =>
    cases rest
    exact ⟨rfl, rfl⟩

theorem returns_of_perform {i : Invocation} {table : SlotTable} {index : Option Nat}
    {calls : List (Call × Reply)} {value : Value}
    (h : (perform r i table index).Ends calls (.ok (.result (.ok value)))) :
    ∃ exchanges, calls = exchanges.map replied ∧ Returns 1 exchanges value := by
  obtain ⟨fault, -, -, hEnd⟩ | ⟨input, source, reply, -, rfl, hEnd⟩ := Program.ends_perform r h
  · cases hEnd
  · rcases reply with ((value' | (f | f | reasons)) | seconds | _)
    · cases hEnd
      exact ⟨[(i.call input, .returned value)], rfl, rfl, allReturned_nil.cons _ _, _, rfl⟩
    all_goals cases hEnd

/-- Calls behind others that have returned too. -/
theorem Returns.prepend {count count' : Nat} {exchanges more : List (Call × Outcome)}
    {value value' : Value} (h : Returns count exchanges value)
    (hMore : Returns count' more value') : Returns (count + count') (exchanges ++ more) value' := by
  obtain ⟨call, hLast⟩ := hMore.last
  refine ⟨by rw [List.length_append, h.length, hMore.length], h.returned.append hMore.returned,
    call, ?_⟩
  rw [List.getLast?_append, hLast, Option.some_or]

mutual

/-- A step has a value only if each of its commands was called and returned, and it is the value that
the last of these returned. -/
theorem returns_of_ofNode : ∀ (n : Node) {step : Option Nat} {table : SlotTable}
    {index : Option Nat} {calls : List (Call × Reply)} {value : Value}, Sound step [n] →
    (ofNode r table index n).Ends calls (.ok (.result (.ok value))) →
    ∃ exchanges, calls = exchanges.map replied ∧ Returns n.invocations.length exchanges value
  | .invocation i, _, _, _, _, _, _, h => by
    rw [ofNode] at h
    exact returns_of_perform h
  | .chain slot line column steps, _, _, _, _, value, sound, h => by
    obtain ⟨nonempty, inner⟩ := sound.of_mem (List.mem_singleton_self _)
    rw [Program.ofNode_chain] at h
    cases h with
    | note rest =>
      obtain ⟨front, run, back, hSteps, hBack, rfl⟩ | ⟨_, -, hError⟩ :=
        Program.ends_task_bind.mp rest
      · rcases run with _ | run
        · cases hBack
        · obtain ⟨rfl, hResult⟩ := Program.ends_pure hBack
          have hRun : run.error = none ∧ run.result = value := by
            unfold ChainRun.nestedResult at hResult
            split at hResult
            · cases hResult
            · rename_i hNone
              cases hResult
              exact ⟨hNone, rfl⟩
          rw [← hRun.2, List.append_nil]
          exact returns_of_ofSteps steps inner nonempty rfl hSteps hRun.1
      · cases hError

theorem returns_of_ofSteps : ∀ (steps : List Node) {step : Option Nat} {run run' : ChainRun}
    {index : Nat} {calls : List (Call × Reply)}, Sound step steps → steps ≠ [] →
    run.state = .running → (ofSteps r index steps run).Ends calls (.ok (some run')) →
    run'.error = none → ∃ exchanges, calls = exchanges.map replied ∧
      Returns (allInvocations steps).length exchanges run'.result
  | [], _, _, _, _, _, _, nonempty, _, _, _ => absurd rfl nonempty
  | n :: steps, step, run, run', index, _, sound, _, running, h, completed => by
    have hFailed (ended : StepEnd) (failed : ∀ value, ended ≠ .result (.ok value))
        {calls : List (Call × Reply)} (h : (Program.afterStep r index n steps
          { run with step := some (index : Int) } ended).Ends calls (.ok (some run'))) : False := by
      rcases ended with (failure | value) | _
      · cases h with
        | note rest =>
          cases rest
          cases completed
      · exact failed value rfl
      · cases h with
        | note rest => cases rest
    rw [Program.ofSteps_cons r running] at h
    cases h with
    | look stop rest =>
      cases stop with
      | true => exact (hFailed (.fault (n.stopped (some index))) (by rintro _ ⟨⟩) rest).elim
      | false =>
        obtain ⟨front, ended, back, hStep, hBack, rfl⟩ | ⟨_, -, hError⟩ :=
          Program.ends_task_bind.mp rest
        · rcases ended with (failure | value) | _
          · exact (hFailed _ (by rintro _ ⟨⟩) hBack).elim
          · obtain ⟨first, rfl, hFirst⟩ := returns_of_ofNode n sound.first hStep
            have hRun :
                (ChainRun.fill { run with step := some (index : Int) } index n value).state =
                  .running := running
            change (ofSteps r (index + 1) steps _).Ends _ _ at hBack
            rw [allInvocations, List.length_append]
            rcases steps with _ | ⟨next, steps⟩
            · obtain ⟨rfl, rfl⟩ := ends_ofSteps_nil hRun hBack
              rw [List.append_nil]
              rw [← ChainRun.result_fill { run with step := some (index : Int) } index n value]
                at hFirst
              exact ⟨first, rfl, hFirst⟩
            · have hRest : Sound (step.map (· + 1)) (next :: steps) := by
                simpa using @Sound.drop step (next :: steps) [n] sound
              obtain ⟨others, rfl, hOthers⟩ :=
                returns_of_ofSteps (next :: steps) hRest (by simp) hRun hBack completed
              exact ⟨first ++ others, List.map_append.symm, hFirst.prepend hOthers⟩
          · exact (hFailed _ (by rintro _ ⟨⟩) hBack).elim
        · cases hError

end

end Returned

theorem Descends.sound {root inner : List Node} {outer : List Level}
    (h : Descends root outer inner) (sound : Sound (some 0) root) : Sound (some 0) inner := by
  induction h with
  | here => exact sound
  | inside _ ih => exact (ih.of_mem (List.mem_append_right _ List.mem_cons_self)).2

/-- An item that has come to a step, behind the steps `before` of a chain, has called just the
commands in front of it. Each of these calls has returned, and the slots of the chains hold what they
returned. -/
structure Reached (exchanges : List (Call × Outcome)) (outer : List Level) (before : List Node)
    (slots : List Slot) : Prop where
  returned : AllReturned exchanges
  length : exchanges.length = callsBefore outer + (allInvocations before).length
  around : Kept exchanges outer
  here : KeepsReturned exchanges (callsBefore outer) before slots

theorem Reaches.reached {r : Resolver} {root : List Node} {calls : List (Call × Reply)}
    {outer : List Level} {before rest : List Node} {run : ChainRun} (sound : Sound (some 0) root)
    (h : Reaches r root calls outer before rest run) :
    ∃ exchanges, calls = exchanges.map replied ∧
      Reached exchanges outer before run.table.slots := by
  have hEmpty (exchanges : List (Call × Outcome)) (front : Nat) :
      KeepsReturned exchanges front [] [] := by
    intro k slot hSlot
    cases hSlot
  induction h with
  | first => exact ⟨[], rfl, allReturned_nil, rfl, .none, hEmpty [] 0⟩
  | @next front back outer before rest step run value here ends ih =>
    obtain ⟨first, rfl, hReturned, hLength, hAround, hHere⟩ := ih
    have hSound : Sound _ (step :: rest) := (here.descends.sound sound).drop
    obtain ⟨others, rfl, hCount, hMore, call, hLast⟩ := returns_of_ofNode step hSound.first ends
    have hFilled : run.table.slots.length = before.length := by
      have hKeys := congrArg List.length here.keys
      rwa [List.length_map, slotKeys, List.length_mapIdx] at hKeys
    have hTotal : (first ++ others).length =
        callsBefore outer + (allInvocations (before ++ [step])).length := by
      rw [allInvocations_concat, List.length_append, List.length_append]
      omega
    have hNewest : (first ++ others).getLast? = some (call, .returned value) := by
      rw [List.getLast?_append, hLast, Option.some_or]
    exact ⟨first ++ others, List.map_append.symm, hReturned.append hMore, hTotal,
      hAround.append others, (hHere.append others).concat hFilled hTotal hNewest⟩
  | @inside calls outer before rest steps slot line column run here ih =>
    obtain ⟨exchanges, hCalls, hReturned, hLength, hAround, hHere⟩ := ih
    refine ⟨exchanges, hCalls, hReturned, ?_, .inside hAround hHere, hEmpty exchanges _⟩
    rw [callsBefore_append, callsBefore_singleton]
    exact hLength

/-- An item has come to a step with calls that have all returned, and they tell what its slots hold. -/
theorem Reaches.reached_replied {r : Resolver} {root : List Node}
    {exchanges : List (Call × Outcome)} {outer : List Level} {before rest : List Node}
    {run : ChainRun} (sound : Sound (some 0) root)
    (h : Reaches r root (exchanges.map replied) outer before rest run) :
    Reached exchanges outer before run.table.slots := by
  obtain ⟨own, hCalls, hReached⟩ := h.reached sound
  rwa [List.map_injective_iff.mpr replied_injective hCalls]

theorem Sound.invocations_ne_nil : ∀ (n : Node) {step : Option Nat}, Sound step [n] →
    n.invocations ≠ []
  | .invocation i, _, _ => List.cons_ne_nil _ _
  | .chain slot line column steps, _, sound => by
    obtain ⟨nonempty, inner⟩ := sound.of_mem (List.mem_singleton_self _)
    obtain ⟨first, others, rfl⟩ := List.exists_cons_of_ne_nil nonempty
    have hFirst := Sound.invocations_ne_nil first inner.first
    rw [Node.invocations, allInvocations]
    exact List.append_ne_nil_of_left_ne_nil hFirst _

/-- A step that has failed comes before the end of its chains. -/
theorem FailedAt.callsBefore_lt {steps : List Node} {levels : List Level} {culprit : Node}
    {index : Nat} (h : FailedAt steps levels culprit index) {step : Option Nat}
    (sound : Sound step steps) : callsBefore levels < (allInvocations steps).length := by
  induction h generalizing step with
  | @here level culprit rest =>
    have hSome := Sound.invocations_ne_nil culprit (sound.drop.first)
    have hPositive := List.length_pos_iff.mpr hSome
    rw [callsBefore_singleton, allInvocations_append, allInvocations, List.length_append,
      List.length_append]
    omega
  | @inside level slot line column steps rest deeper culprit index further ih =>
    have hInner := (sound.of_mem (List.mem_append_right _ List.mem_cons_self)).2
    have hDeeper := ih hInner
    rw [callsBefore_cons, allInvocations_append, allInvocations, Node.invocations,
      List.length_append, List.length_append]
    omega

/-- Of two steps of a chain, the one with fewer commands up to its end does not come later. -/
theorem length_le_of_calls {before before' rest rest' : List Node} {step step' : Node} {count : Nat}
    (split : before ++ step :: rest = before' ++ step' :: rest')
    (above : count < (allInvocations (before ++ [step])).length)
    (below : (allInvocations before').length ≤ count) : before'.length ≤ before.length := by
  by_contra hShort
  obtain ⟨between, rfl, hRest⟩ | ⟨between, rfl, -⟩ := List.append_eq_append_iff.mp split
  · rcases between with _ | ⟨first, between⟩
    · rw [List.append_nil] at hShort
      exact hShort (Nat.le_refl _)
    · cases (List.cons.inj hRest).1
      rw [List.append_cons, allInvocations_append, List.length_append] at below
      omega
  · rw [List.length_append] at hShort
    omega

/-- The outermost of the chains that an item is in: which step it has come to, and what is further
down. The number of the calls so far lies between those of the commands up to this step. -/
theorem FailedAt.outermost {steps : List Node} {levels : List Level} {culprit : Node} {index : Nat}
    (h : FailedAt steps levels culprit index) {step : Option Nat} (sound : Sound step steps) :
    ∃ level deeper own rest, levels = level :: deeper ∧ steps = level.before ++ own :: rest ∧
      (allInvocations level.before).length ≤ callsBefore levels ∧
      callsBefore levels < (allInvocations (level.before ++ [own])).length ∧
      (own = culprit ∧ deeper = [] ∨ ∃ slot line column inner,
        own = .chain slot line column inner ∧ FailedAt inner deeper culprit index) := by
  cases h with
  | @here level culprit rest =>
    have hSome := List.length_pos_iff.mpr (Sound.invocations_ne_nil culprit sound.drop.first)
    refine ⟨level, [], culprit, rest, rfl, rfl, ?_, ?_, .inl ⟨rfl, rfl⟩⟩
    · exact Nat.le_of_eq (callsBefore_singleton level).symm
    · rw [callsBefore_singleton, allInvocations_concat, List.length_append]
      omega
  | @inside level slot line column steps rest deeper culprit index further =>
    have hDeeper := further.callsBefore_lt (sound.of_mem (List.mem_append_right _ List.mem_cons_self)).2
    have hCount := callsBefore_cons level deeper
    refine ⟨level, deeper, .chain slot line column steps, rest, rfl, rfl, ?_, ?_,
      .inr ⟨slot, line, column, steps, rfl, further⟩⟩
    · omega
    · rw [hCount, allInvocations_concat, List.length_append, Node.invocations]
      omega

/-- The number of the calls so far tells which command an item has come to, and behind which steps of
its chains. -/
theorem FailedAt.unique {i i' : Invocation} {index index' : Nat} {levels levels' : List Level}
    {steps : List Node} {step : Option Nat} (sound : Sound step steps)
    (h : FailedAt steps levels (.invocation i) index)
    (h' : FailedAt steps levels' (.invocation i') index')
    (same : callsBefore levels = callsBefore levels') :
    levels.map Level.before = levels'.map Level.before ∧ i = i' := by
  induction levels generalizing steps levels' step with
  | nil => cases h
  | cons first others ih =>
    obtain ⟨level, deeper, own, rest, hLevels, rfl, hLow, hHigh, hOwn⟩ := h.outermost sound
    obtain ⟨level', deeper', own', rest', rfl, hSteps, hLow', hHigh', hOwn'⟩ := h'.outermost sound
    cases hLevels
    have hLength : first.before.length = level'.before.length := by
      apply Nat.le_antisymm
      · exact length_le_of_calls hSteps.symm (same ▸ hHigh') hLow
      · exact length_le_of_calls hSteps hHigh (same ▸ hLow')
    obtain ⟨hBefore, hRest⟩ := List.append_inj hSteps hLength
    cases hRest
    obtain ⟨rfl, rfl⟩ | ⟨slot, line, column, inner, rfl, further⟩ := hOwn
    · obtain ⟨hSame, rfl⟩ | ⟨_, _, _, _, hChain, -⟩ := hOwn'
      · cases hSame
        exact ⟨congrArg (fun before => [before]) hBefore, rfl⟩
      · cases hChain
    · obtain ⟨hSame, -⟩ | ⟨_, _, _, _, hChain, further'⟩ := hOwn'
      · cases hSame
      · cases hChain
        have hInner := (sound.of_mem (List.mem_append_right _ List.mem_cons_self)).2
        rw [callsBefore_cons, callsBefore_cons, hBefore] at same
        obtain ⟨hDeeper, rfl⟩ := ih hInner further further' (Nat.add_left_cancel same)
        exact ⟨congrArg₂ List.cons hBefore hDeeper, rfl⟩

end Directive
