import LimbArith.Proofs.Session.Execution

/-!
# LimbArith — steps and runs

Main results:

* `step_execution` — what a step can do.
* `step_frame` — a step changes no register but its own.
* `step_wellFormed`, `run_wellFormed` — well-formed registers stay well-formed.
* `run_step` — a run, step by step.
-/

namespace LimbArith.Session

variable {w : Width} {alu : Alu w} {regs : Registers w}

-- ---------------------------------------------------------------------------
-- Steps
-- ---------------------------------------------------------------------------

/-- A step is what its command does. -/
theorem step_execution (hAlu : alu.Lawful) (hRegs : regs.WellFormed) (s : Step w) :
    ∃ t next, Execution regs s.dst s.command t next ∧
      step alu regs s = (⟨t.events, t.outcome, next.lookup s.dst⟩, next) :=
  ⟨_, _, execution hAlu hRegs s.dst s.command, rfl⟩

/-- A command leaves the same registers, or a well-formed buffer, if any, in its own. -/
theorem Execution.set {dst : ℕ} {c : Command w} {t : Traced (Reply w)} {next : Registers w}
    (h : Execution regs dst c t next) (hRegs : regs.WellFormed) :
    next = regs ∨ ∃ o, (∀ b, o = some b → b.WellFormed) ∧ next = regs.set dst o := by
  cases h with
  | planned hPlan hRoom => exact .inr ⟨_, fun b hb => hPlan.wellFormed hRegs hRoom hb, rfl⟩
  | applied hb hLength =>
    refine .inr ⟨_, ?_, rfl⟩
    intro c hc
    cases hc
    exact (hRegs _ _ hb).overwrite hLength
  | refused | exceeded | faulted | asked => exact .inl rfl

theorem step_set (hAlu : alu.Lawful) (hRegs : regs.WellFormed) (s : Step w) :
    (step alu regs s).2 = regs ∨
      ∃ o, (∀ b, o = some b → b.WellFormed) ∧ (step alu regs s).2 = regs.set s.dst o := by
  obtain ⟨t, next, hExecution, hStep⟩ := step_execution hAlu hRegs s
  rw [hStep]
  exact hExecution.set hRegs

theorem step_wellFormed (hAlu : alu.Lawful) (hRegs : regs.WellFormed) (s : Step w) :
    (step alu regs s).2.WellFormed := by
  rcases step_set hAlu hRegs s with hSame | ⟨o, ho, hSet⟩
  · rw [hSame]
    exact hRegs
  · rw [hSet]
    exact hRegs.set ho

theorem step_frame (hAlu : alu.Lawful) (hRegs : regs.WellFormed) (s : Step w) {r : ℕ}
    (hr : r ≠ s.dst) : (step alu regs s).2.lookup r = regs.lookup r := by
  rcases step_set hAlu hRegs s with hSame | ⟨o, -, hSet⟩
  · rw [hSame]
  · rw [hSet]
    exact Registers.lookup_set_ne hr o

-- ---------------------------------------------------------------------------
-- Runs
-- ---------------------------------------------------------------------------

theorem run_wellFormed (hAlu : alu.Lawful) (steps : List (Step w)) (hRegs : regs.WellFormed) :
    (run alu steps regs).2.WellFormed := by
  induction steps generalizing regs with
  | nil => exact hRegs
  | cons s steps ih => exact ih (step_wellFormed hAlu hRegs s)

/-- The step at each place of a run, with its outcome and the registers before and after it. -/
theorem run_step {steps : List (Step w)} {k : ℕ} {s : Step w} (hStep : steps[k]? = some s)
    (alu : Alu w) (regs : Registers w) :
    (run alu steps regs).1[k]? = some (step alu (run alu (steps.take k) regs).2 s).1 ∧
      (run alu (steps.take (k + 1)) regs).2 = (step alu (run alu (steps.take k) regs).2 s).2 := by
  induction steps generalizing k regs with
  | nil => simp at hStep
  | cons t steps ih =>
    cases k with
    | zero =>
      obtain rfl : t = s := Option.some.inj hStep
      exact ⟨rfl, rfl⟩
    | succ k => exact ih hStep (step alu regs t).2

end LimbArith.Session
