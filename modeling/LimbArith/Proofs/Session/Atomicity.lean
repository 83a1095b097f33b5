import LimbArith.Proofs.Primitive.Implementation
import LimbArith.Proofs.Session.Run

/-!
# LimbArith — storage fails cleanly

Memory is refused exactly when it cannot be had, and a step that fails has done
nothing: operations work in place, but each of them takes its memory before its
first change. The log of a failed step is the warning of its failure.

Main results:

* `Command.Fills`, `Command.Makes` — the slots that a command needs.
* `Execution.error` — a failure leaves the registers and reports no more than
  itself.
* `step_atomic` — when each command fails, and what it leaves.
-/

namespace LimbArith

/-- What is reported of a failure: a warning if memory was refused. -/
def Failure.warnings : Failure → List Event
  | .storage (.allocationFailed n) => [.limbsRefused n]
  | .storage (.insufficientCapacity _ _) => []
  | .fault _ => []

namespace Session

open Buffer

variable {w : Width} {alu : Alu w} {regs : Registers w} {dst : ℕ}

-- ---------------------------------------------------------------------------
-- What commands need
-- ---------------------------------------------------------------------------

/-- A command that needs `n` slots in the buffer it is about. Its operands are other buffers. -/
inductive Command.Fills (regs : Registers w) (dst : ℕ) : Command w → ℕ → Prop
  | reserve {n} : Fills regs dst (.reserve n) n
  | copyFrom {src a} (ha : src ≠ dst ∧ regs.lookup src = some a) :
    Fills regs dst (.copyFrom src) a.size
  | setSum {x y a c} (ha : x ≠ dst ∧ regs.lookup x = some a)
      (hc : y ≠ dst ∧ regs.lookup y = some c) :
    Fills regs dst (.setSum x y) (max a.size c.size + 1)
  | setDifference {x y a c} (ha : x ≠ dst ∧ regs.lookup x = some a)
      (hc : y ≠ dst ∧ regs.lookup y = some c) :
    Fills regs dst (.setDifference x y) (max a.size c.size)
  | setProduct {x y a c} (ha : x ≠ dst ∧ regs.lookup x = some a)
      (hc : y ≠ dst ∧ regs.lookup y = some c) :
    Fills regs dst (.setProduct x y) (a.size + c.size)
  | setSquare {x a} (ha : x ≠ dst ∧ regs.lookup x = some a) :
    Fills regs dst (.setSquare x) (2 * a.size)

/-- A command that makes a buffer with `n` slots. -/
inductive Command.Makes (regs : Registers w) : Command w → ℕ → Prop
  | new {n s} : Makes regs (.new n s) n
  | ofLimbs {xs s} : Makes regs (.ofLimbs xs s) xs.length
  | ofBytes {bytes s} (hCount : bytes.length + w.bytes < Size.bound) :
    Makes regs (.ofBytes bytes s) (Digits.limbCount w 8 bytes.length)
  | clone {src a} (ha : regs.lookup src = some a) : Makes regs (.clone src) a.capacity

/-- A command that fills a buffer is planned with the memory it needs, and grows the buffer to
exactly that unless it is large enough. -/
theorem Command.Fills.planned (hRegs : regs.WellFormed) {c : Command w} {b : Buffer w} {n : ℕ}
    (h : c.Fills regs dst n) (hb : regs.lookup dst = some b) :
    ∃ p b', Planned regs dst c p ∧ p.limbs = n ∧ p.state = some b' ∧
      b'.capacity = max b.capacity n := by
  have hWell := hRegs _ _ hb
  cases h with
  | reserve => exact ⟨_, _, .reserve hb, rfl, rfl, capacity_grown hWell n⟩
  | copyFrom ha =>
    exact ⟨_, _, .copyFrom hb ha, rfl, rfl, capacity_copied_roomy hWell (hRegs _ _ ha.2) _⟩
  | setSum ha hc =>
    exact ⟨_, _, .setSum hb ha hc, rfl, rfl, capacity_stored hWell ..⟩
  | setDifference ha hc =>
    exact ⟨_, _, .setDifference hb ha hc, rfl, rfl, capacity_stored hWell ..⟩
  | setProduct ha hc =>
    exact ⟨_, _, .setProduct hb ha hc, rfl, rfl, capacity_stored hWell ..⟩
  | setSquare ha =>
    rw [Nat.two_mul]
    exact ⟨_, _, .setSquare hb ha, rfl, rfl, capacity_stored hWell ..⟩

theorem Command.Makes.planned {c : Command w} {n : ℕ} (h : c.Makes regs n)
    (hDst : dst < regs.length) :
    ∃ p b', Planned regs dst c p ∧ p.limbs = n ∧ p.state = some b' ∧ b'.capacity = n := by
  cases h with
  | new => exact ⟨_, _, .new hDst, rfl, rfl, capacity_blank _ _⟩
  | ofLimbs => exact ⟨_, _, .ofLimbs hDst, rfl, rfl, capacity_holding _ _⟩
  | ofBytes hCount =>
    rw [← length_limbsOfBytes]
    exact ⟨_, _, .ofBytes hDst hCount, rfl, rfl, capacity_holding _ _⟩
  | clone ha => exact ⟨_, _, .clone hDst ha, rfl, rfl, rfl⟩

-- ---------------------------------------------------------------------------
-- Failures
-- ---------------------------------------------------------------------------

/-- Whatever fails has changed nothing, and reports its own warning only. -/
theorem Execution.error {c : Command w} {t : Traced (Reply w)} {next : Registers w} {e : Failure}
    (h : Execution regs dst c t next) (hError : t.outcome = .error e) :
    next = regs ∧ t.events = e.warnings := by
  cases h with
  | planned | asked | applied => cases hError
  | refused | exceeded | faulted =>
    cases hError
    exact ⟨rfl, rfl⟩

/-- A planned step is refused its memory exactly if that cannot be had; otherwise it answers. -/
theorem step_planned_iff (hAlu : alu.Lawful) (hRegs : regs.WellFormed) {s : Step w} {p : Plan w}
    (hDst : s.dst < regs.length) (hPlan : Planned regs s.dst s.command p) :
    ((step alu regs s).1.reply = .error (.storage (.allocationFailed p.limbs)) ↔
        ¬ Allocatable w p.limbs) ∧
      (Allocatable w p.limbs → (step alu regs s).1.reply = .ok p.reply ∧
        (step alu regs s).2.lookup s.dst = p.state) := by
  unfold step
  by_cases hRoom : Allocatable w p.limbs
  · rw [execute_planned hAlu hRegs hPlan hRoom]
    exact ⟨⟨nofun, fun h => absurd hRoom h⟩, fun _ => ⟨rfl, Registers.lookup_set_self hDst _⟩⟩
  · rw [execute_refused hAlu hRegs hPlan hRoom]
    exact ⟨⟨fun _ => hRoom, fun _ => rfl⟩, fun h => absurd h hRoom⟩

theorem step_setSize_iff (hAlu : alu.Lawful) (hRegs : regs.WellFormed) {b : Buffer w}
    (hb : regs.lookup dst = some b) (n : ℕ) :
    ((step alu regs ⟨dst, .setSize n⟩).1.reply
        = .error (.storage (.insufficientCapacity n b.capacity)) ↔ b.capacity < n) ∧
      (n ≤ b.capacity → (step alu regs ⟨dst, .setSize n⟩).1.reply = .ok .done) := by
  unfold step
  by_cases h : n ≤ b.capacity
  · rw [execute_planned hAlu hRegs (.setSize hb h) allocatable_zero]
    exact ⟨⟨nofun, fun hLess => absurd h (not_le.mpr hLess)⟩, fun _ => rfl⟩
  · rw [execute_exceeded hAlu hRegs hb (not_le.mp h)]
    exact ⟨⟨fun _ => not_le.mp h, fun _ => rfl⟩, fun hLe => absurd hLe h⟩

/-- **Storage fails exactly when it must, and then does nothing.** A command is refused memory
exactly if it needs more slots than its buffer has and these do not fit in memory; otherwise it
leaves as many slots as it needs or its buffer had. A size is refused exactly if it is above the
capacity. A step that fails leaves all registers as they were and reports one warning if memory was
refused, and else nothing. -/
theorem step_atomic (impl : Implementation w) {regs : Registers w} (hRegs : regs.WellFormed)
    (s : Step w) :
    let o := (step impl.alu regs s).1
    let next := (step impl.alu regs s).2
    (∀ b n, regs.lookup s.dst = some b → s.command.Fills regs s.dst n →
      (o.reply = .error (.storage (.allocationFailed n)) ↔
        b.capacity < n ∧ ¬ Allocatable w n) ∧
      (¬ (b.capacity < n ∧ ¬ Allocatable w n) → ∃ reply b', o.reply = .ok reply ∧
        next.lookup s.dst = some b' ∧ b'.capacity = max b.capacity n)) ∧
    (∀ n, s.dst < regs.length → s.command.Makes regs n →
      (o.reply = .error (.storage (.allocationFailed n)) ↔ ¬ Allocatable w n) ∧
      (Allocatable w n → ∃ reply b', o.reply = .ok reply ∧
        next.lookup s.dst = some b' ∧ b'.capacity = n)) ∧
    (∀ b n, regs.lookup s.dst = some b → s.command = .setSize n →
      (o.reply = .error (.storage (.insufficientCapacity n b.capacity)) ↔ b.capacity < n) ∧
      (n ≤ b.capacity → o.reply = .ok .done)) ∧
    ∀ e, o.reply = .error e → next = regs ∧ o.events = e.warnings := by
  intro o next
  refine ⟨?fills, ?makes, ?sizes, ?errors⟩
  case fills =>
    intro b n hb hFills
    obtain ⟨p, b', hPlan, rfl, hState, hCapacity⟩ := hFills.planned hRegs hb
    obtain ⟨hRefused, hAnswers⟩ :=
      step_planned_iff impl.lawful hRegs (Registers.lt_of_lookup hb) hPlan
    -- slots that are there already are in memory
    have hMore : ¬ Allocatable w p.limbs → b.capacity < p.limbs := fun hRoom =>
      not_le.mp fun hLe => hRoom ((hRegs _ _ hb).allocatable.mono hLe)
    refine ⟨hRefused.trans ⟨fun h => ⟨hMore h, h⟩, And.right⟩, fun h => ?_⟩
    have hRoom : Allocatable w p.limbs := by
      by_contra hNot
      exact h ⟨hMore hNot, hNot⟩
    obtain ⟨hReply, hNext⟩ := hAnswers hRoom
    exact ⟨p.reply, b', hReply, hNext.trans hState, hCapacity⟩
  case makes =>
    intro n hDst hMakes
    obtain ⟨p, b', hPlan, rfl, hState, hCapacity⟩ := hMakes.planned hDst
    obtain ⟨hRefused, hAnswers⟩ := step_planned_iff impl.lawful hRegs hDst hPlan
    refine ⟨hRefused, fun hRoom => ?_⟩
    obtain ⟨hReply, hNext⟩ := hAnswers hRoom
    exact ⟨p.reply, b', hReply, hNext.trans hState, hCapacity⟩
  case sizes =>
    intro b n hb hSize
    obtain ⟨dst, c⟩ := s
    cases hSize
    exact step_setSize_iff impl.lawful hRegs hb n
  case errors =>
    intro e hError
    obtain ⟨t, after, hExecution, hStep⟩ := step_execution impl.lawful hRegs s
    simp only [o, next, hStep] at hError ⊢
    exact hExecution.error hError

/-- A buffer of one slot, next to another one. -/
def small : Registers .w32 := [some ⟨[5], 1, .ordinary⟩, some ⟨[7, 0], 1, .secure⟩]

theorem wellFormed_small : small.WellFormed := by
  intro r b hb
  match r with
  | 0 =>
    cases hb
    exact ⟨le_refl _, by decide⟩
  | 1 =>
    cases hb
    exact ⟨by decide, by decide⟩
  | r + 2 => cases hb

/-- More slots than there is memory for are refused, and the buffer stays. -/
theorem step_atomic_small :
    (small.WellFormed ∧ ¬ Allocatable .w32 memoryBound) ∧
      (step (Implementation.portable .w32).alu small ⟨0, .reserve memoryBound⟩).1.reply
        = .error (.storage (.allocationFailed memoryBound)) ∧
      (step (Implementation.portable .w32).alu small ⟨0, .reserve memoryBound⟩).2 = small ∧
      (step (Implementation.portable .w32).alu small ⟨0, .reserve memoryBound⟩).1.events
        = [.limbsRefused memoryBound] := by
  have hRefused : ¬ Allocatable .w32 memoryBound := by decide
  obtain ⟨hFills, -, -, hErrors⟩ :=
    step_atomic (.portable .w32) wellFormed_small ⟨0, .reserve memoryBound⟩
  have hReply := (hFills _ _ rfl .reserve).1.mpr ⟨by decide, hRefused⟩
  exact ⟨⟨wellFormed_small, hRefused⟩, hReply, hErrors _ hReply⟩

end Session

end LimbArith
