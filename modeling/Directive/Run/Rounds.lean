import Directive.Run.Descent
import Directive.Script.Parser

/-!
# Runs in rounds

A round is one turn of each item. Rounds go on until nothing can move; a call that never ends is
then answered by its limit, or by calling the run off.

* `drive`: rounds up to the end;
* `runItems`: items one after another, `runTogether` side by side;
* `runScript`: a whole script, and `runText` a text, which may be refused before anything is run.
-/

namespace Directive.Rounds

variable {σ α : Type} (c : Rounds σ)

def drive (js : List (Job σ α)) (w : World σ) : List (Job σ α) × World σ :=
  if js.any fun j => canMove j.process then
    drive (turns c.resume js w).1 (turns c.resume js w).2
  else match c.relief with
    | none => (js, w)
    | some r =>
      if js.any fun j => hangs j.process then
        drive (turns (c.relieve r) js w).1 (turns (c.relieve r) js w).2
      else (js, w)
termination_by Pointwise.wellFounded Job.later_wellFounded |>.wrap js
decreasing_by
  · rename_i h
    exact pointwise_of_any c.later_resume c.resume_of_not_canMove h
  · rename_i h
    exact pointwise_of_any (c.later_relieve r) (c.relieve_of_not_hangs r) h

/-- The jobs after their first turns, in order. -/
def launch : List (Nat × Program α) → World σ → List (Job σ α) × World σ
  | [], w => ([], w)
  | (item, program) :: rest, w =>
    let (p, w) := c.settle item program w
    let (js, w) := launch rest w
    (⟨item, p⟩ :: js, w)

def taskResult : Process σ (Except Escape α) → Except Escape α
  | .ended r => r
  | .waiting _ _ _ => .error .stuck

/-- What the jobs end with, unless one of them ends the run. -/
def gather : List (Job σ (Except Escape α)) → Except Escape (List α)
  | [] => .ok []
  | j :: js => do
    let a ← taskResult j.process
    return a :: (← gather js)

/-- Some tasks side by side. -/
def together (tasks : List (Nat × Task α)) : Run σ (List α) := fun w =>
  let (js, w) := c.launch (tasks.map fun t => (t.1, t.2.run)) w
  let (js, w) := c.drive js w
  (gather js, w)

def runItem (position : Nat) (n : Node) : Run σ ItemReport := do
  match ← c.together [(position, Program.ofItem c.resolver position n)] with
  | report :: _ => return report
  | [] => throw .stuck

/-- Items one after another. Once one has failed the rest may have to be skipped. -/
def runItems : Nat → List Node → Run σ (List ItemReport)
  | _, [] => return []
  | position, node :: nodes => do
    let report ← c.runItem position node
    if c.stopOnError && report.status = .aborted then
      return report :: nodes.mapIdx fun k n => .skipped (position + 1 + k) n
    else return report :: (← runItems (position + 1) nodes)

def runTogether (nodes : List Node) : Run σ (List ItemReport) :=
  c.together (nodes.mapIdx fun position n => (position, Program.ofItem c.resolver position n))

def runScript (s : Script) : Run σ Report := do
  if c.concurrent && !c.stopOnError then return .ofItems (← c.runTogether s.items)
  else return .ofItems (← c.runItems 0 s.items)

def runText (g : Grammar) (text : String) : Run σ Report :=
  match Script.ofText g text with
  | .ok s => c.runScript s
  | .error fault => do
    note [.rejected fault.message]
    return .ofRejection fault
  | .endless => throw .stuck

end Directive.Rounds
