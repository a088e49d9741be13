import Directive.Run.Handler
import Directive.Run.Program
import Directive.Run.World

/-!
# Turns

Items may run side by side. In its turn each of them moves until it gives up control: a call may
pause any number of times before it replies, or never reply.

* `settle`, `resume`: what a process does in its turn;
* `turns`: the turns of all processes, in the order of the text.

A call with a limit is entered one turn late and its reply is heard two turns late; with a limit
that is not positive it is never entered.
-/

namespace Directive

/-- What a process waits for. -/
inductive Stage (σ : Type)
  /-- The handler is entered in the next turn. -/
  | starting
  | working (p : Pending σ)
  /-- The reply is there, and is heard after some more turns. -/
  | ending (turns : Nat) (r : Reply)

inductive Process (σ α : Type)
  | ended (a : α)
  | waiting (call : Call) (stage : Stage σ) (next : Reply → Program α)

/-- An item of a script that runs. -/
structure Job (σ α : Type) where
  item : Nat
  process : Process σ α

/-- How a run in rounds goes. -/
structure Rounds (σ : Type) where
  handler : PausingHandler σ
  signal : Signal σ
  resolver : Resolver := .standard
  /-- The seconds that a call may take. -/
  limit : Option Binary64 := none
  concurrent : Bool := true
  stopOnError : Bool := false
  /-- Whether the run is called off once nothing can move. -/
  calledOff : Bool := false

namespace Rounds

variable {σ α : Type} (c : Rounds σ)

def enter (item : Nat) (call : Call) (w : World σ) : Pending σ × World σ :=
  let w := w.add [.entered item call]
  let o := c.handler call w.outer
  (o.pending, ({ w with outer := o.state } : World σ).note o.records)

/-- What the caller hears of an outcome under a limit. -/
def heard (seconds : Binary64) : Outcome → Reply
  | .threw (.failure ⟨.timeout, _⟩) => .timedOut seconds
  | o => .outcome o

/-- A program up to its next wait. -/
def settle (item : Nat) : Program α → World σ → Process σ α × World σ
  | .done a, w => (.ended a, w)
  | .note records next, w => settle item next (w.note records)
  | .look next, w =>
    let (stop, outer) := c.signal w.outer
    settle item (next stop) { w with outer }
  | .call call next, w =>
    match c.limit with
    | none =>
      match c.enter item call w with
      | (.reply o, w) => settle item (next (.outcome o)) (w.add [.left item o])
      | (p, w) => (.waiting call (.working p) next, w)
    | some seconds =>
      if seconds.le Binary64.zero then (.waiting call (.ending 2 (.timedOut seconds)) next, w)
      else (.waiting call .starting next, w)

/-- A process whose call has come to some point. -/
def follow (item : Nat) (call : Call) (next : Reply → Program α) (p : Pending σ) (w : World σ) :
    Process σ α × World σ :=
  match p with
  | .reply o =>
    let w := w.add [.left item o]
    match c.limit with
    | none => c.settle item (next (.outcome o)) w
    | some seconds => (.waiting call (.ending 1 (heard seconds o)) next, w)
  | p => (.waiting call (.working p) next, w)

/-- A process after its turn. -/
def resume (item : Nat) : Process σ α → World σ → Process σ α × World σ
  | .ended a, w => (.ended a, w)
  | .waiting call .starting next, w =>
    let (p, w) := c.enter item call w
    c.follow item call next p w
  | .waiting call (.working (.pause touch more)) next, w =>
    c.follow item call next (more w.outer) { w with outer := touch w.outer }
  | .waiting call (.working .hang) next, w => (.waiting call (.working .hang) next, w)
  | .waiting call (.working (.reply o)) next, w => c.follow item call next (.reply o) w
  | .waiting _ (.ending 0 r) next, w => c.settle item (next r) w
  | .waiting call (.ending (n + 1) r) next, w => (.waiting call (.ending n r) next, w)

def canMove : Process σ α → Bool
  | .ended _ => false
  | .waiting _ (.working .hang) _ => false
  | _ => true

def hangs : Process σ α → Bool
  | .waiting _ (.working .hang) _ => true
  | _ => false

/-- What a call that never ends is answered with once nothing else can move. -/
def relief : Option Reply :=
  if c.calledOff then some .interrupted
  else c.limit.map .timedOut

/-- A process that hangs, with its call answered. -/
def relieve (r : Reply) (item : Nat) : Process σ α → World σ → Process σ α × World σ
  | .waiting _ (.working .hang) next, w => c.settle item (next r) w
  | p, w => (p, w)

/-- Each job's turn, in order. -/
def turns (turn : Nat → Process σ α → World σ → Process σ α × World σ) :
    List (Job σ α) → World σ → List (Job σ α) × World σ
  | [], w => ([], w)
  | j :: js, w =>
    let (p, w) := turn j.item j.process w
    let (js, w) := turns turn js w
    (⟨j.item, p⟩ :: js, w)

end Rounds

end Directive
