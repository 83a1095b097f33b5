import LimbArith.Proofs.Session.Run

/-!
# LimbArith — sessions compute with numbers

What a session does to its buffers, seen as numbers, is exact arithmetic. Neither
the sizes of numbers nor limbs left in the slots above them ever show in a result.

Main results:

* `Command.Means` — what each command does to the numbers in registers.
* `Planned.means` — that a plan does it.
* `run_exact` — that every step of every run does it.
-/

namespace LimbArith.Session

open Buffer

variable {w : Width} {regs : Registers w} {dst : ℕ}

/-- The register holds a buffer with the number `v`. -/
def Registers.Holds (regs : Registers w) (r v : ℕ) : Prop :=
  ∃ b, regs.lookup r = some b ∧ b.value = v

/-- What a command that answers does to the numbers in registers. A difference is taken modulo the
radix of the longer of its operands. Writing to slots and choosing a size mean no number in
particular, which is then whatever the slots say: a write replaces as many slots as it has limbs and
keeps the size, a choice of size keeps the slots. An array operation keeps the size and the number
of slots. -/
def Command.Means (before after : Registers w) (dst : ℕ) (reply : Reply w) : Command w → Prop
  | .new _ _ => after.Holds dst 0
  | .ofLimbs xs _ => after.Holds dst (Limbs.value xs)
  | .ofBytes bytes _ => after.Holds dst (Digits.bigEndian bytes)
  | .clone src => ∃ v, before.Holds src v ∧ after.Holds dst v
  | .copyFrom src => ∃ v, before.Holds src v ∧ after.Holds dst v
  | .drop => after.lookup dst = none
  | .wipe => after.Holds dst 0
  | .reserve _ => ∃ v, before.Holds dst v ∧ after.Holds dst v
  | .trim => ∃ v, before.Holds dst v ∧ after.Holds dst v
  | .setSum x y => ∃ u v, before.Holds x u ∧ before.Holds y v ∧ after.Holds dst (u + v)
  | .setProduct x y => ∃ u v, before.Holds x u ∧ before.Holds y v ∧ after.Holds dst (u * v)
  | .setSquare x => ∃ u, before.Holds x u ∧ after.Holds dst (u * u)
  | .setDifference x y => ∃ a b v, before.lookup x = some a ∧ before.lookup y = some b ∧
      after.Holds dst v ∧
      (v : ℤ) = (a.value - b.value : ℤ) % radix (w.bits * max a.size b.size) ∧
      reply = .returned (.limb (if a.value < b.value then 1 else 0))
  | .write start xs => ∃ b, before.lookup dst = some b ∧ start + xs.length ≤ b.capacity ∧
      after.lookup dst = some (b.written start xs)
  | .setSize n => ∃ b, before.lookup dst = some b ∧ n ≤ b.capacity ∧
      after.lookup dst = some { b with size := n }
  | .apply _ _ => ∀ b, before.lookup dst = some b → ∃ slots : Limbs w,
      slots.length = b.slots.length ∧ after.lookup dst = some { b with slots }
  | .info | .toBytes | .bitLength | .debugText | .debugLines | .hex | .compare _ => after = before

-- ---------------------------------------------------------------------------
-- One step
-- ---------------------------------------------------------------------------

theorem Registers.holds_set (hDst : dst < regs.length) {b : Buffer w} {v : ℕ} (hv : b.value = v) :
    Holds (regs.set dst (some b)) dst v :=
  ⟨b, lookup_set_self hDst _, hv⟩

theorem Registers.holds_of_lookup {r : ℕ} {b : Buffer w} (h : regs.lookup r = some b) :
    regs.Holds r b.value := ⟨b, h, rfl⟩

/-- A stored result is the number of its register. -/
theorem Registers.holds_stored (hDst : dst < regs.length) (b : Buffer w) (secure : Bool) {n v : ℕ}
    (hFits : v < radix (w.bits * n)) : Holds (regs.set dst (some (b.stored secure n v))) dst v :=
  holds_set hDst (value_stored b secure hFits)

open Registers in
theorem Planned.means (hRegs : regs.WellFormed) {c : Command w} {p : Plan w}
    (h : Planned regs dst c p) : c.Means regs (regs.set dst p.state) dst p.reply := by
  cases h with
  | new hDst => exact holds_set hDst rfl
  | ofLimbs hDst => exact holds_set hDst (value_holding _ _)
  | ofBytes hDst => exact holds_set hDst ((value_holding _ _).trans (value_limbsOfBytes _))
  | clone hDst hSrc => exact ⟨_, holds_of_lookup hSrc, holds_set hDst rfl⟩
  | drop => exact lookup_set_none regs dst
  | write hb hRange => exact ⟨_, hb, hRange, lookup_set_self (lt_of_lookup hb) _⟩
  | setSize hb hn => exact ⟨_, hb, hn, lookup_set_self (lt_of_lookup hb) _⟩
  | trim hb => exact ⟨_, holds_of_lookup hb, holds_set (lt_of_lookup hb) (value_trimmed _)⟩
  | wipe hb => exact holds_set (lt_of_lookup hb) (value_wipe _)
  | reserve hb =>
    exact ⟨_, holds_of_lookup hb, holds_set (lt_of_lookup hb) (value_grown (hRegs _ _ hb) _)⟩
  | copyFrom hb ha =>
    exact ⟨_, holds_of_lookup ha.2, holds_set (lt_of_lookup hb) (value_copied _ (hRegs _ _ ha.2))⟩
  | setSquare hb ha =>
    have hFits := (hRegs _ _ ha.2).mul_value_lt (hRegs _ _ ha.2)
    exact ⟨_, holds_of_lookup ha.2, holds_stored (lt_of_lookup hb) _ _ hFits⟩
  | setProduct hb ha hc =>
    have hFits := (hRegs _ _ ha.2).mul_value_lt (hRegs _ _ hc.2)
    exact ⟨_, _, holds_of_lookup ha.2, holds_of_lookup hc.2,
      holds_stored (lt_of_lookup hb) _ _ hFits⟩
  | setSum hb ha hc =>
    have hFits := (hRegs _ _ ha.2).add_value_lt (hRegs _ _ hc.2)
    exact ⟨_, _, holds_of_lookup ha.2, holds_of_lookup hc.2,
      holds_stored (lt_of_lookup hb) _ _ hFits⟩
  | setDifference hb ha hc =>
    exact ⟨_, _, _, ha.2, hc.2, holds_stored (lt_of_lookup hb) _ _ (differenceFrom_lt _ _),
      differenceFrom_eq_emod _ (hRegs _ _ hc.2), rfl⟩

/-- A command without a plan that changes nothing does what it should. -/
theorem means_of_unplanned {c : Command w} (hPlan : plan regs dst c = none) (reply : Reply w) :
    c.Means regs regs dst reply := by
  cases c <;> cases hPlan
  case apply => exact fun b hb => ⟨b.slots, rfl, hb⟩
  all_goals rfl

theorem Execution.means {c : Command w} {t : Traced (Reply w)} {next : Registers w}
    (h : Execution regs dst c t next) (hRegs : regs.WellFormed) :
    match t.outcome with
    | .ok reply => c.Means regs next dst reply
    | .error _ => next = regs := by
  cases h with
  | planned hPlan => exact hPlan.means hRegs
  | asked hPlan => exact means_of_unplanned hPlan _
  | applied hb hLength =>
    intro b hLookup
    cases hb.symm.trans hLookup
    exact ⟨_, hLength, Registers.lookup_set_self (Registers.lt_of_lookup hb) _⟩
  | refused | exceeded | faulted => rfl

theorem step_means {alu : Alu w} (hAlu : alu.Lawful) (hRegs : regs.WellFormed) (s : Step w) :
    match (step alu regs s).1.reply with
    | .ok reply => s.command.Means regs (step alu regs s).2 s.dst reply
    | .error _ => (step alu regs s).2 = regs := by
  obtain ⟨t, next, hExecution, hStep⟩ := step_execution hAlu hRegs s
  rw [hStep]
  exact hExecution.means hRegs

-- ---------------------------------------------------------------------------
-- Runs
-- ---------------------------------------------------------------------------

/-- **Every run computes with exact numbers.** Whatever a session does to its buffers, each of its
commands that answers leaves in its register the number it should, by the numbers of the registers
before it, and nothing else changes; a command that fails changes nothing at all. -/
theorem run_exact (impl : Implementation w) (n : ℕ) {steps : List (Step w)} {k : ℕ} {s : Step w}
    (hStep : steps[k]? = some s) :
    let before := (run impl.alu (steps.take k) (Registers.empty w n)).2
    let after := (run impl.alu (steps.take (k + 1)) (Registers.empty w n)).2
    ∃ o, (run impl.alu steps (Registers.empty w n)).1[k]? = some o ∧
      (∀ r, r ≠ s.dst → after.lookup r = before.lookup r) ∧
      match o.reply with
      | .ok reply => s.command.Means before after s.dst reply
      | .error _ => after = before := by
  intro before after
  -- well-formed registers are the invariant that makes every step exact
  have hRegs : before.WellFormed :=
    run_wellFormed impl.lawful (steps.take k) (Registers.wellFormed_empty n)
  obtain ⟨hOutcome, hNext⟩ := run_step hStep impl.alu (Registers.empty w n)
  have hAfter : after = (step impl.alu before s).2 := hNext
  refine ⟨_, hOutcome, ?_, ?_⟩
  · intro r hr
    rw [hAfter]
    exact step_frame impl.lawful hRegs s hr
  · rw [hAfter]
    exact step_means impl.lawful hRegs s

/-- A session that takes a larger number from a smaller one. -/
def borrowing : List (Step .w32) :=
  [⟨0, .new 1 .ordinary⟩, ⟨1, .ofLimbs [3, 0] .ordinary⟩, ⟨2, .ofLimbs [5] .ordinary⟩,
    ⟨0, .setDifference 1 2⟩]

theorem run_exact_borrowing :
    borrowing[3]? = some ⟨0, .setDifference 1 2⟩ ∧
      ∃ o,
        (run (Implementation.portable .w32).alu borrowing (Registers.empty .w32 3)).1[3]? = some o ∧
        o.reply = .ok (.returned (.limb 1)) ∧
        Command.Means
          (run (Implementation.portable .w32).alu (borrowing.take 3) (Registers.empty .w32 3)).2
          (run (Implementation.portable .w32).alu (borrowing.take 4) (Registers.empty .w32 3)).2
          0 (.returned (.limb 1)) (.setDifference 1 2) := by
  have hStep : borrowing[3]? = some ⟨0, .setDifference 1 2⟩ := rfl
  obtain ⟨o, hOutcome, -, hMeans⟩ := run_exact (.portable .w32) 3 hStep
  have hReply : some o.reply = some (.ok (.returned (.limb 1))) := by
    rw [← Option.map_some (f := Outcome.reply), ← hOutcome]
    rfl
  rw [Option.some.inj hReply] at hMeans
  exact ⟨hStep, o, hOutcome, Option.some.inj hReply, hMeans⟩

end LimbArith.Session
