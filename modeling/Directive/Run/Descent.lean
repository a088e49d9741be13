import Directive.Order.Pointwise
import Directive.Run.Turn

/-!
# Turns come to an end

Programs and pending calls are trees, and each turn goes down at least one of them.

* `Process.Later`: one process is further than another, which cannot go on forever;
* `later_resume`: a turn takes a process that can move further.
-/

namespace Directive

variable {σ α : Type}

/-- The first call is what is left of the second after one pause or more. -/
def Pending.Below (q : Pending σ) : Pending σ → Prop
  | .reply _ => False
  | .pause _ more => ∃ s, q = more s ∨ Below q (more s)
  | .hang => False

theorem Pending.below_wellFounded : WellFounded (@Pending.Below σ) := by
  refine ⟨fun p => ?_⟩
  induction p with
  | reply o => exact .intro _ fun q h => h.elim
  | hang => exact .intro _ fun q h => h.elim
  | pause touch more ih =>
    refine .intro _ fun q ⟨s, h⟩ => ?_
    rcases h with rfl | h
    · exact ih s
    · exact (ih s).inv h

/-- The first program is what is left of the second after one act or more. -/
def Program.Below (q : Program α) : Program α → Prop
  | .done _ => False
  | .note _ next => q = next ∨ Below q next
  | .look next => ∃ stop, q = next stop ∨ Below q (next stop)
  | .call _ next => ∃ r, q = next r ∨ Below q (next r)

theorem Program.below_wellFounded : WellFounded (@Program.Below α) := by
  refine ⟨fun p => ?_⟩
  induction p with
  | done a => exact .intro _ fun q h => h.elim
  | note records next ih =>
    refine .intro _ fun q h => ?_
    rcases h with rfl | h
    · exact ih
    · exact ih.inv h
  | look next ih =>
    refine .intro _ fun q ⟨stop, h⟩ => ?_
    rcases h with rfl | h
    · exact ih stop
    · exact (ih stop).inv h
  | call c next ih =>
    refine .intro _ fun q ⟨r, h⟩ => ?_
    rcases h with rfl | h
    · exact ih r
    · exact (ih r).inv h

namespace Stage

/-- How far a call is: whether it has been entered, what is left of it, and the turns to come. -/
def rank : Stage σ → Nat × Pending σ × Nat
  | .starting => (2, .hang, 0)
  | .working p => (1, p, 0)
  | .ending turns _ => (0, .hang, turns)

def Later (q p : Stage σ) : Prop :=
  Prod.Lex (· < ·) (Prod.Lex Pending.Below (· < ·)) q.rank p.rank

end Stage

namespace Process

def program : Process σ α → Program α
  | .ended a => .done a
  | .waiting call _ next => .call call next

def stage : Process σ α → Stage σ
  | .ended _ => .ending 0 .interrupted
  | .waiting _ stage _ => stage

def rank (p : Process σ α) : Program α × Nat × Pending σ × Nat := (p.program, p.stage.rank)

def Later (q p : Process σ α) : Prop :=
  Prod.Lex Program.Below (Prod.Lex (· < ·) (Prod.Lex Pending.Below (· < ·))) q.rank p.rank

theorem later_wellFounded : WellFounded (@Later σ α) :=
  InvImage.wf rank (Prod.lex ⟨_, Program.below_wellFounded⟩
    (Prod.lex ⟨_, Nat.lt_wfRel.wf⟩ (Prod.lex ⟨_, Pending.below_wellFounded⟩ Nat.lt_wfRel))).wf

theorem later_of_below {q p : Process σ α} (h : Program.Below q.program p.program) : q.Later p :=
  Prod.Lex.left _ _ h

theorem later_of_stage {call : Call} {q p : Stage σ} {next : Reply → Program α}
    (h : q.Later p) : (Process.waiting call q next).Later (.waiting call p next) :=
  Prod.Lex.right _ h

end Process

namespace Job

def Later (q p : Job σ α) : Prop := q.process.Later p.process

theorem later_wellFounded : WellFounded (@Later σ α) :=
  InvImage.wf Job.process Process.later_wellFounded

end Job

namespace Rounds

variable (c : Rounds σ)

theorem program_settle (item : Nat) (p : Program α) (w : World σ) :
    (c.settle item p w).1.program = p ∨ Program.Below (c.settle item p w).1.program p := by
  induction p generalizing w with
  | done a => exact .inl rfl
  | note records next ih =>
    have := ih (w.note records)
    simpa [settle, Program.Below] using .inr this
  | look next ih =>
    right
    simp only [settle, Program.Below]
    exact ⟨_, ih _ _⟩
  | call call next ih =>
    unfold settle
    split
    · split
      · exact .inr ⟨_, ih _ _⟩
      · exact .inl rfl
    · split
      · exact .inl rfl
      · exact .inl rfl

theorem later_settle (item : Nat) (call : Call) (stage : Stage σ) (next : Reply → Program α)
    (r : Reply) (w : World σ) :
    (c.settle item (next r) w).1.Later (.waiting call stage next) :=
  Process.later_of_below ⟨r, c.program_settle item (next r) w⟩

theorem later_follow (item : Nat) (call : Call) (next : Reply → Program α) (p : Pending σ)
    (w : World σ) (stage : Stage σ)
    (hWorking : (Stage.working p).Later stage ∨ ∃ o, p = .reply o)
    (hEnding : ∀ r, (Stage.ending 1 r).Later stage) :
    (c.follow item call next p w).1.Later (.waiting call stage next) := by
  unfold follow
  split
  · split
    · exact c.later_settle ..
    · exact Process.later_of_stage (hEnding _)
  · rename_i hReply
    rcases hWorking with h | ⟨o, h⟩
    · exact Process.later_of_stage h
    · exact absurd h (hReply o)

theorem later_resume (item : Nat) (p : Process σ α) (w : World σ) (h : canMove p = true) :
    (c.resume item p w).1.Later p := by
  have hEntered : ∀ q : Pending σ, (Stage.working q).Later .starting :=
    fun q => Prod.Lex.left _ _ (by decide)
  have hHeard : ∀ (q : Pending σ) (r : Reply), (Stage.ending 1 r).Later (.working q) :=
    fun q r => Prod.Lex.left _ _ (by decide)
  fun_cases resume c item p w with
  | case1 => simp [canMove] at h
  | case2 call next =>
    exact c.later_follow _ _ _ _ _ _ (.inl (hEntered _)) fun r => Prod.Lex.left _ _ (by decide)
  | case3 call touch more next =>
    exact c.later_follow _ _ _ _ _ _
      (.inl (Prod.Lex.right _ (Prod.Lex.left _ _ ⟨_, .inl rfl⟩))) (hHeard _)
  | case4 => simp [canMove] at h
  | case5 call o next => exact c.later_follow _ _ _ _ _ _ (.inr ⟨o, rfl⟩) (hHeard _)
  | case6 call r next => exact c.later_settle ..
  | case7 call n r next =>
    exact Process.later_of_stage (Prod.Lex.right _ (Prod.Lex.right _ (Nat.lt_succ_self n)))

theorem resume_of_not_canMove (item : Nat) (p : Process σ α) (w : World σ)
    (h : canMove p = false) : (c.resume item p w).1 = p := by
  fun_cases canMove p <;> simp_all [canMove, resume]

theorem later_relieve (r : Reply) (item : Nat) (p : Process σ α) (w : World σ)
    (h : hangs p = true) : (c.relieve r item p w).1.Later p := by
  fun_cases relieve c r item p w
  · exact c.later_settle ..
  · fun_cases hangs p <;> simp_all [hangs]

theorem relieve_of_not_hangs (r : Reply) (item : Nat) (p : Process σ α) (w : World σ)
    (h : hangs p = false) : (c.relieve r item p w).1 = p := by
  fun_cases hangs p <;> simp_all [hangs, relieve]

variable {c}

/-- If a turn takes each process that has some property further and leaves the others alone, the
turns of all take some job further. -/
theorem pointwise_turns {turn : Nat → Process σ α → World σ → Process σ α × World σ}
    {moves : Process σ α → Bool}
    (hMoves : ∀ item p w, moves p = true → (turn item p w).1.Later p)
    (hStays : ∀ item p w, moves p = false → (turn item p w).1 = p)
    (js : List (Job σ α)) (w : World σ) :
    (turns turn js w).1 = js ∧ (∀ j ∈ js, moves j.process = false)
      ∨ Pointwise Job.Later (turns turn js w).1 js := by
  induction js generalizing w with
  | nil => exact .inl ⟨rfl, by simp⟩
  | cons j js ih =>
    simp only [turns]
    rcases hj : moves j.process with _ | _
    · rw [hStays _ _ _ hj]
      rcases ih (turn j.item j.process w).2 with ⟨h, hAll⟩ | h
      · exact .inl ⟨by rw [h], by simpa [hj] using hAll⟩
      · exact .inr (.later h)
    · have hLater : Job.Later ⟨j.item, (turn j.item j.process w).1⟩ j := hMoves _ _ _ hj
      rcases ih (turn j.item j.process w).2 with ⟨h, _⟩ | h
      · rw [h]
        exact .inr (.here hLater)
      · exact .inr (.both hLater h)

theorem pointwise_of_any {turn : Nat → Process σ α → World σ → Process σ α × World σ}
    {moves : Process σ α → Bool}
    (hMoves : ∀ item p w, moves p = true → (turn item p w).1.Later p)
    (hStays : ∀ item p w, moves p = false → (turn item p w).1 = p)
    {js : List (Job σ α)} {w : World σ} (h : (js.any fun j => moves j.process) = true) :
    Pointwise Job.Later (turns turn js w).1 js := by
  rcases pointwise_turns hMoves hStays js w with ⟨_, hAll⟩ | h'
  · obtain ⟨j, hj, hm⟩ := List.any_eq_true.1 h
    rw [hAll j hj] at hm
    contradiction
  · exact h'

end Rounds

end Directive
