import LimbArith.Proofs.Primitive.Implementation
import LimbArith.Proofs.Session.Run

/-!
# LimbArith — storage operations do not fault

A fault is a check that fails: a part outside its array, a copy between different
lengths, a count that overflows, or the contract of an array operation. In a
session that respects what the commands ask for, no check of a storage operation
ever fails, whatever limbs, sizes and capacities its buffers have come to have.

Main results:

* `Command.Ready` — what a command asks for.
* `Command.Ready.ne_fault` — a command that has it does not fault.
* `Refusal`, `Execution.refusal` — what storage may refuse.
* `run_safe` — in every run, with the size of every buffer within its capacity.
-/

namespace LimbArith.Session

open Buffer

variable {w : Width} {alu : Alu w} {regs : Registers w} {dst : ℕ}

/-- What storage commands ask of the registers: the buffers they use are there, operands are not the
destination, and limbs are written within the slots. Bits are counted of buffers that have fewer
than a count can hold. Of the limbs and the sizes nothing is asked. -/
inductive Command.Ready (regs : Registers w) (dst : ℕ) : Command w → Prop
  | new {n s} (hDst : dst < regs.length) : Ready regs dst (.new n s)
  | ofLimbs {xs s} (hDst : dst < regs.length) : Ready regs dst (.ofLimbs xs s)
  | ofBytes {bytes s} (hDst : dst < regs.length) (hMemory : bytes.length < memoryBound) :
    Ready regs dst (.ofBytes bytes s)
  | clone {src a} (hDst : dst < regs.length) (ha : regs.lookup src = some a) :
    Ready regs dst (.clone src)
  | drop : Ready regs dst .drop
  | info {b} (hb : regs.lookup dst = some b) : Ready regs dst .info
  | hex {b} (hb : regs.lookup dst = some b) : Ready regs dst .hex
  | debugText {b} (hb : regs.lookup dst = some b) : Ready regs dst .debugText
  | debugLines {b} (hb : regs.lookup dst = some b) : Ready regs dst .debugLines
  | bitLength {b} (hb : regs.lookup dst = some b) (hBits : b.capacity * w.bits < Size.bound) :
    Ready regs dst .bitLength
  | toBytes {b} (hb : regs.lookup dst = some b) (hBits : b.capacity * w.bits < Size.bound) :
    Ready regs dst .toBytes
  | write {start xs b} (hb : regs.lookup dst = some b) (hRange : start + xs.length ≤ b.capacity) :
    Ready regs dst (.write start xs)
  | setSize {n b} (hb : regs.lookup dst = some b) : Ready regs dst (.setSize n)
  | trim {b} (hb : regs.lookup dst = some b) : Ready regs dst .trim
  | wipe {b} (hb : regs.lookup dst = some b) : Ready regs dst .wipe
  | reserve {n b} (hb : regs.lookup dst = some b) : Ready regs dst (.reserve n)
  | copyFrom {src b a} (hb : regs.lookup dst = some b)
      (ha : src ≠ dst ∧ regs.lookup src = some a) : Ready regs dst (.copyFrom src)
  | setSquare {x b a} (hb : regs.lookup dst = some b) (ha : x ≠ dst ∧ regs.lookup x = some a) :
    Ready regs dst (.setSquare x)
  | setProduct {x y b a c} (hb : regs.lookup dst = some b)
      (ha : x ≠ dst ∧ regs.lookup x = some a) (hc : y ≠ dst ∧ regs.lookup y = some c) :
    Ready regs dst (.setProduct x y)
  | setSum {x y b a c} (hb : regs.lookup dst = some b)
      (ha : x ≠ dst ∧ regs.lookup x = some a) (hc : y ≠ dst ∧ regs.lookup y = some c) :
    Ready regs dst (.setSum x y)
  | setDifference {x y b a c} (hb : regs.lookup dst = some b)
      (ha : x ≠ dst ∧ regs.lookup x = some a) (hc : y ≠ dst ∧ regs.lookup y = some c) :
    Ready regs dst (.setDifference x y)

-- ---------------------------------------------------------------------------
-- Questions
-- ---------------------------------------------------------------------------

theorem shownLimbs_answers {b : Buffer w} (hb : b.WellFormed) :
    ∃ shown, b.shownLimbs = .ok shown := by
  rw [shownLimbs, hb.limbs_eq]
  cases b.isSecure with
  | true => exact ⟨_, rfl⟩
  | false => exact ⟨_, rfl⟩

theorem query_ne_fault {f : Registers w → Buffer w → Traced (Reply w)} {b : Buffer w}
    (hb : regs.lookup dst = some b) (h : ∃ reply, f regs b = pure reply) (fault : Fault) :
    (query dst f regs).1.outcome ≠ .error (.fault fault) := by
  obtain ⟨reply, h⟩ := h
  rw [query_eq, Registers.get_eq_ok_iff.mpr hb, Traced.liftM_ok, pure_bind, h]
  nofun

-- ---------------------------------------------------------------------------
-- Commands
-- ---------------------------------------------------------------------------

theorem planned_ne_fault (hAlu : alu.Lawful) (hRegs : regs.WellFormed) {c : Command w}
    {p : Plan w} (hPlan : Planned regs dst c p) (fault : Fault) :
    (execute alu dst c regs).1.outcome ≠ .error (.fault fault) := by
  by_cases hRoom : Allocatable w p.limbs
  · rw [execute_planned hAlu hRegs hPlan hRoom]
    nofun
  · rw [execute_refused hAlu hRegs hPlan hRoom]
    nofun

/-- A size is either taken or refused. -/
theorem setSize_ne_fault (hAlu : alu.Lawful) (hRegs : regs.WellFormed) {b : Buffer w}
    (hb : regs.lookup dst = some b) (n : ℕ) (fault : Fault) :
    (execute alu dst (.setSize n) regs).1.outcome ≠ .error (.fault fault) := by
  by_cases hn : n ≤ b.capacity
  · exact planned_ne_fault hAlu hRegs (.setSize hb hn) fault
  · rw [execute_exceeded hAlu hRegs hb (not_le.mp hn)]
    nofun

theorem Command.Ready.ne_fault (hAlu : alu.Lawful) (hRegs : regs.WellFormed) {c : Command w}
    (h : c.Ready regs dst) (fault : Fault) :
    (execute alu dst c regs).1.outcome ≠ .error (.fault fault) := by
  have hPlanned : ∀ {p}, Planned regs dst c p →
      (execute alu dst c regs).1.outcome ≠ .error (.fault fault) := fun hPlan =>
    planned_ne_fault hAlu hRegs hPlan fault
  cases h with
  | new hDst => exact hPlanned (.new hDst)
  | ofLimbs hDst => exact hPlanned (.ofLimbs hDst)
  | ofBytes hDst hMemory =>
    refine hPlanned (.ofBytes hDst (lt_of_lt_of_le (Nat.add_lt_add_right hMemory _) ?_))
    cases w <;> decide
  | clone hDst ha => exact hPlanned (.clone hDst ha)
  | drop => exact hPlanned .drop
  | write hb hRange => exact hPlanned (.write hb hRange)
  | setSize hb => exact setSize_ne_fault hAlu hRegs hb _ fault
  | trim hb => exact hPlanned (.trim hb)
  | wipe hb => exact hPlanned (.wipe hb)
  | reserve hb => exact hPlanned (.reserve hb)
  | copyFrom hb ha => exact hPlanned (.copyFrom hb ha)
  | setSquare hb ha => exact hPlanned (.setSquare hb ha)
  | setProduct hb ha hc => exact hPlanned (.setProduct hb ha hc)
  | setSum hb ha hc => exact hPlanned (.setSum hb ha hc)
  | setDifference hb ha hc => exact hPlanned (.setDifference hb ha hc)
  -- questions read the number, which lies within the slots
  | info hb =>
    refine query_ne_fault hb ?_ fault
    rw [(hRegs _ _ hb).limbs_eq]
    exact ⟨_, rfl⟩
  | hex hb =>
    refine query_ne_fault hb ?_ fault
    rw [(hRegs _ _ hb).limbs_eq]
    exact ⟨_, rfl⟩
  | debugText hb =>
    obtain ⟨shown, hShown⟩ := shownLimbs_answers (hRegs _ _ hb)
    refine query_ne_fault hb ?_ fault
    rw [Buffer.debugText, hShown]
    exact ⟨_, rfl⟩
  | debugLines hb =>
    obtain ⟨shown, hShown⟩ := shownLimbs_answers (hRegs _ _ hb)
    refine query_ne_fault hb ?_ fault
    rw [Buffer.debugLines, hShown]
    exact ⟨_, rfl⟩
  | bitLength hb hBits =>
    have hCount := countable_bits (hRegs _ _ hb) hBits
    refine query_ne_fault hb ?_ fault
    rw [bitLength_eq hAlu (hRegs _ _ hb), require_pos (by omega)]
    exact ⟨_, rfl⟩
  | toBytes hb hBits =>
    refine query_ne_fault hb ?_ fault
    rw [toBytes_eq hAlu (hRegs _ _ hb), require_pos (countable_bits (hRegs _ _ hb) hBits)]
    exact ⟨_, rfl⟩

-- ---------------------------------------------------------------------------
-- Refusals
-- ---------------------------------------------------------------------------

/-- What storage may refuse a command: memory that cannot be had, or a size above the capacity. -/
inductive Refusal (regs : Registers w) (dst : ℕ) : Command w → StorageError → Prop
  | memory {c n} (hRoom : ¬ Allocatable w n) : Refusal regs dst c (.allocationFailed n)
  | size {n b} (hb : regs.lookup dst = some b) (hn : b.capacity < n) :
    Refusal regs dst (.setSize n) (.insufficientCapacity n b.capacity)

theorem Execution.refusal {c : Command w} {t : Traced (Reply w)} {next : Registers w}
    {e : StorageError} (h : Execution regs dst c t next) (hError : t.outcome = .error (.storage e)) :
    Refusal regs dst c e := by
  cases h with
  | planned | faulted | asked | applied => cases hError
  | refused _ hRoom =>
    cases hError
    exact .memory hRoom
  | exceeded hb hn =>
    cases hError
    exact .size hb hn

-- ---------------------------------------------------------------------------
-- Runs
-- ---------------------------------------------------------------------------

/-- **No storage operation faults, in any run.** After every step each buffer's number lies within
its slots. A command is refused only memory that cannot be had or a size above the capacity, and one
that has what it asks for never fails otherwise: no part is ever outside its array, no count
overflows, and no array operation is called against its contract. -/
theorem run_safe (impl : Implementation w) (n : ℕ) {steps : List (Step w)} {k : ℕ} {s : Step w}
    (hStep : steps[k]? = some s) :
    let before := (run impl.alu (steps.take k) (Registers.empty w n)).2
    let after := (run impl.alu (steps.take (k + 1)) (Registers.empty w n)).2
    ∃ o, (run impl.alu steps (Registers.empty w n)).1[k]? = some o ∧
      (∀ r b, after.lookup r = some b → b.size ≤ b.capacity) ∧
      (∀ e, o.reply = .error (.storage e) → Refusal before s.dst s.command e) ∧
      (s.command.Ready before s.dst → ∀ fault, o.reply ≠ .error (.fault fault)) := by
  intro before after
  have hRegs : before.WellFormed :=
    run_wellFormed impl.lawful (steps.take k) (Registers.wellFormed_empty n)
  have hAfter : after.WellFormed :=
    run_wellFormed impl.lawful (steps.take (k + 1)) (Registers.wellFormed_empty n)
  have hExecution := execution impl.lawful hRegs s.dst s.command
  obtain ⟨hOutcome, -⟩ := run_step hStep impl.alu (Registers.empty w n)
  refine ⟨_, hOutcome, fun r b hb => (hAfter r b hb).size_le, ?refusals, ?faults⟩
  case refusals => exact fun e hError => hExecution.refusal hError
  case faults => exact fun hReady => hReady.ne_fault impl.lawful hRegs

/-- A session with limbs above the numbers, leading zeros, and a destination without slots. -/
def untidy : List (Step .w32) :=
  [⟨0, .new 0 .ordinary⟩, ⟨1, .ofLimbs [3, 0, 9] .secure⟩, ⟨2, .new 2 .ordinary⟩,
    ⟨1, .write 1 [0, 0]⟩, ⟨2, .setSize 2⟩, ⟨0, .setDifference 2 1⟩]

theorem run_safe_untidy :
    untidy[5]? = some ⟨0, .setDifference 2 1⟩ ∧
      Command.Ready
        (run (Implementation.portable .w32).alu (untidy.take 5) (Registers.empty .w32 3)).2
        0 (.setDifference 2 1) ∧
      ∃ o,
        (run (Implementation.portable .w32).alu untidy (Registers.empty .w32 3)).1[5]? = some o ∧
        ∀ fault, o.reply ≠ .error (.fault fault) := by
  have hStep : untidy[5]? = some ⟨0, .setDifference 2 1⟩ := rfl
  have hReady : Command.Ready
      (run (Implementation.portable .w32).alu (untidy.take 5) (Registers.empty .w32 3)).2
      0 (.setDifference 2 1) := .setDifference rfl ⟨by decide, rfl⟩ ⟨by decide, rfl⟩
  obtain ⟨o, hOutcome, -, -, hSafe⟩ := run_safe (.portable .w32) 3 hStep
  exact ⟨hStep, hReady, o, hOutcome, hSafe hReady⟩

end LimbArith.Session
