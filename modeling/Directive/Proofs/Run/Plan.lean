import Directive.Run.Program

/-!
# Plans

Which calls an item makes can be read off its tree: one for each command, in the order of the text,
until one of them does not return.

* `Source`: what an input comes from; a reference stands for the value of an earlier call;
* `Node.plan`: the commands of a tree with the sources of their inputs;
* `Course`: calls that follow a plan, and how they end.
-/

namespace Directive

/-- What an input or a result comes from. -/
inductive Source
  | nothing
  | literal (parts : List String)
  /-- The value of a call of the same item; these are counted from zero. -/
  | returned (call : Nat)
  /-- A reference that means no earlier step of its chain. -/
  | unbound

namespace Source

/-- The value from a source, once some calls have returned. -/
def value? (values : List Value) : Source → Option Value
  | .nothing => some .null
  | .literal parts => some (.ofParts parts)
  | .returned call => values[call]?
  | .unbound => none

theorem value?_append {values : List Value} {s : Source} {v : Value} (h : s.value? values = some v)
    (more : List Value) : s.value? (values ++ more) = some v := by
  cases s with
  | nothing => exact h
  | literal parts => exact h
  | unbound => exact h
  | returned call =>
    obtain ⟨bound, -⟩ := List.getElem?_eq_some_iff.mp h
    rw [value?, List.getElem?_append_left bound]
    exact h

end Source

/-- A step of a chain for the references after it. -/
structure Outlet where
  label : String
  command : String
  source : Source

/-- A command of a tree, and what its input comes from. -/
structure Leaf where
  invocation : Invocation
  source : Source

/-- The commands of a tree in the order of the text, and what its result comes from. -/
structure Plan where
  leaves : List Leaf
  result : Source

/-- A reference stands for the last step before it that its phrase may mean. -/
def Invocation.source (r : Resolver) (before : List Outlet) (i : Invocation) : Source :=
  match i.input with
  | none => .nothing
  | some (.literal parts) => .literal parts
  | some (.reference phrase) =>
    match (before.filter fun o =>
        r.means (Resolver.wordsOf phrase) (Resolver.wordsOf o.label) o.command).getLast? with
    | some o => o.source
    | none => .unbound

namespace Node

mutual

/-- The plan of a node behind some steps of its chain and a number of calls of its item. -/
def plan (r : Resolver) (before : List Outlet) (calls : Nat) : Node → Plan
  | .invocation i => ⟨[⟨i, i.source r before⟩], .returned calls⟩
  | .chain _ _ _ steps => planSteps r [] calls steps

def planSteps (r : Resolver) (before : List Outlet) (calls : Nat) : List Node → Plan
  | [] => ⟨[], (before.getLast?.map Outlet.source).getD .nothing⟩
  | step :: steps =>
    let own := plan r before calls step
    let rest := planSteps r (before ++ [⟨step.label, step.command, own.result⟩])
      (calls + own.leaves.length) steps
    ⟨own.leaves ++ rest.leaves, rest.result⟩

end

mutual

theorem invocations_plan (r : Resolver) (before : List Outlet) (calls : Nat) :
    ∀ n : Node, (n.plan r before calls).leaves.map Leaf.invocation = n.invocations
  | .invocation _ => rfl
  | .chain _ _ _ steps => invocations_planSteps r [] calls steps

theorem invocations_planSteps (r : Resolver) (before : List Outlet) (calls : Nat) :
    ∀ steps : List Node,
      (planSteps r before calls steps).leaves.map Leaf.invocation = allInvocations steps
  | [] => rfl
  | step :: steps => by
    rw [planSteps, List.map_append, invocations_plan r before calls step,
      invocations_planSteps r _ _ steps, allInvocations]

end

end Node

/-- How calls that follow a plan end. -/
inductive Ending
  /-- All calls have returned; these are their values with those before. -/
  | complete (values : List Value)
  /-- No call failed, but there are no more. -/
  | broken
  | failed (i : Invocation) (reply : Reply)

/-- Calls that follow a plan. Each is made with the value from its source, and the next one only
if it returns. -/
inductive Course : List Leaf → List Value → List (Call × Reply) → Ending → Prop
  | complete {values : List Value} : Course [] values [] (.complete values)
  | broken {leaves : List Leaf} {values : List Value} : Course leaves values [] .broken
  | failed {leaf : Leaf} {leaves : List Leaf} {values : List Value} {input : Value} {reply : Reply}
      (given : leaf.source.value? values = some input)
      (noValue : ∀ value, reply ≠ .outcome (.returned value)) :
      Course (leaf :: leaves) values [(leaf.invocation.call input, reply)]
        (.failed leaf.invocation reply)
  | returned {leaf : Leaf} {leaves : List Leaf} {values : List Value} {input value : Value}
      {calls : List (Call × Reply)} {e : Ending} (given : leaf.source.value? values = some input)
      (rest : Course leaves (values ++ [value]) calls e) :
      Course (leaf :: leaves) values
        ((leaf.invocation.call input, .outcome (.returned value)) :: calls) e

namespace Course

variable {leaves rest : List Leaf} {values : List Value} {calls more : List (Call × Reply)}
  {e : Ending}

theorem append {values' : List Value} (h : Course leaves values calls (.complete values'))
    (hRest : Course rest values' more e) : Course (leaves ++ rest) values (calls ++ more) e := by
  generalize hEnd : Ending.complete values' = ending at h
  induction h with
  | complete =>
    cases hEnd
    exact hRest
  | broken => cases hEnd
  | failed => cases hEnd
  | returned given _ ih => exact .returned given (ih hEnd)

theorem extend (h : Course leaves values calls e) (hEnd : ∀ values', e ≠ .complete values') :
    Course (leaves ++ rest) values calls e := by
  induction h with
  | complete => exact absurd rfl (hEnd _)
  | broken => exact .broken
  | failed given noValue => exact .failed given noValue
  | returned given _ ih => exact .returned given (ih hEnd)

theorem values_of_complete {values' : List Value}
    (h : Course leaves values calls (.complete values')) :
    ∃ new, values' = values ++ new ∧ new.length = leaves.length := by
  generalize hEnd : Ending.complete values' = ending at h
  induction h with
  | complete =>
    cases hEnd
    exact ⟨[], by simp, rfl⟩
  | broken => cases hEnd
  | failed => cases hEnd
  | @returned _ _ _ _ value _ _ _ _ ih =>
    obtain ⟨new, rfl, hLength⟩ := ih hEnd
    exact ⟨value :: new, by simp, by simp [hLength]⟩

/-- A call that returns no value is the last one. -/
theorem failed_of_mem (h : Course leaves values calls e) {call : Call} {reply : Reply}
    (hCall : (call, reply) ∈ calls) (noValue : ∀ value, reply ≠ .outcome (.returned value)) :
    ∃ i, e = .failed i reply := by
  induction h with
  | complete => cases hCall
  | broken => cases hCall
  | failed =>
    cases List.mem_singleton.mp hCall
    exact ⟨_, rfl⟩
  | @returned _ _ _ _ value _ _ _ _ ih =>
    refine ih ((List.mem_cons.mp hCall).resolve_left fun same => ?_)
    exact noValue value (Prod.mk.inj same).2

end Course

end Directive
