import LimbArith.Proofs.Limbs.Order
import LimbArith.Proofs.Primitive.Implementation
import LimbArith.Proofs.Session.Run

/-!
# LimbArith — numbers without leading zeros

Operations on numbers leave numbers without leading zeros: a result is trimmed,
and a copy or a buffer that grows takes over what it had. Only writing to slots
and choosing a size can bring a leading zero in. In a session without these, any
two buffers can be compared at any time.

Main results:

* `Buffer.Normalized` — the invariant, buffer by buffer.
* `Command.OnNumbers` — the commands that keep it.
* `Execution.normalized` — that they do.
* `run_comparable` — in every run, with what it means for comparisons.
-/

namespace LimbArith

variable {w : Width}

-- ---------------------------------------------------------------------------
-- Buffers
-- ---------------------------------------------------------------------------

namespace Buffer

variable {b src : Buffer w}

/-- The number has no leading zero limb. -/
def Normalized (b : Buffer w) : Prop := Digits.Canonical (b.slots.take b.size)

theorem normalized_of_size_eq_zero (h : b.size = 0) : b.Normalized := by
  rw [Normalized, h]
  exact Digits.canonical_nil

/-- The top limb of a number without leading zeros, in the slots. -/
theorem Normalized.top (h : b.Normalized) (hb : b.WellFormed) :
    b.size = 0 ∨ ∃ x, b.slots[b.size - 1]? = some x ∧ x ≠ 0 := by
  by_cases hSize : b.size = 0
  · exact .inl hSize
  · have hTop : b.size - 1 < b.slots.length := by
      have : b.size ≤ b.slots.length := hb.size_le
      omega
    have hLast : (b.slots.take b.size).getLast? = some b.slots[b.size - 1] := by
      rw [List.getLast?_take, if_neg hSize, List.getElem?_eq_getElem hTop]
      rfl
    refine .inr ⟨_, List.getElem?_eq_getElem hTop, ?_⟩
    intro hZero
    rw [Normalized, Digits.Canonical, hLast, hZero] at h
    exact h rfl

theorem normalized_filled (b : Buffer w) (xs : Limbs w) : (b.filled xs).Normalized := by
  show Digits.Canonical ((xs ++ _).take xs.significantLen)
  rw [List.take_append_of_le_length (Limbs.significantLen_le xs)]
  exact Limbs.canonical_take_significantLen xs

theorem normalized_trimmed (b : Buffer w) : b.trimmed.Normalized := by
  have hLess : Limbs.significantLen (b.slots.take b.size) ≤ b.size := size_trimmed_le b
  have hCut := Limbs.canonical_take_significantLen (b.slots.take b.size)
  rw [List.take_take, min_eq_left hLess] at hCut
  exact hCut

theorem Normalized.grown (h : b.Normalized) (hb : b.WellFormed) (n : ℕ) :
    (b.grown n).Normalized := by
  unfold Buffer.grown
  split
  · exact h
  · show Digits.Canonical ((b.slots.take b.size ++ _).take b.size)
    rw [List.take_left' hb.length_take]
    exact h

/-- A copy of a number is as it was, whatever was in the destination. -/
theorem Normalized.copied (h : src.Normalized) (hSrc : src.WellFormed) (b : Buffer w) :
    (b.copied src).Normalized := by
  show Digits.Canonical ((src.slots.take src.size ++ _ ++ _).take src.size)
  rw [List.append_assoc, List.take_left' hSrc.length_take]
  exact h

/-- Two buffers without leading zeros compare like their numbers, and are only equal if all their
limbs are. -/
theorem Normalized.compare {a b : Buffer w} {alu : Alu w} (hAlu : alu.Lawful) (ha : a.Normalized)
    (hb : b.Normalized) :
    Limbs.compareNormalized alu (a.slots.take a.size) (b.slots.take b.size)
        = .ok (compare a.value b.value) ∧
      (Ord.compare a.value b.value = .eq ↔ a.slots.take a.size = b.slots.take b.size) := by
  refine ⟨Limbs.compareNormalized_exact hAlu ha hb, ?_⟩
  rw [Nat.compare_eq_eq]
  constructor
  · intro hValue
    exact ha.eq_of_value_eq hb hValue
  · intro hLimbs
    exact congrArg Limbs.value hLimbs

end Buffer

-- ---------------------------------------------------------------------------
-- Commands
-- ---------------------------------------------------------------------------

namespace Session

open Buffer

variable {alu : Alu w} {regs : Registers w} {dst : ℕ}

/-- The command works on numbers. It neither hands out slots to be written to nor chooses a size. -/
def Command.OnNumbers : Command w → Prop
  | .write _ _ | .apply _ _ | .setSize _ => False
  | _ => True

/-- No buffer in a register has a leading zero limb. -/
def Registers.Normalized (regs : Registers w) : Prop :=
  ∀ r b, regs.lookup r = some b → b.Normalized

theorem Planned.normalized (hRegs : regs.WellFormed) (hNormalized : regs.Normalized)
    {c : Command w} (hc : c.OnNumbers) {p : Plan w} {b : Buffer w} (h : Planned regs dst c p)
    (hState : p.state = some b) : b.Normalized := by
  cases h <;> cases hState
  case new => exact normalized_of_size_eq_zero rfl
  case ofLimbs => exact normalized_filled _ _
  case ofBytes => exact normalized_filled _ _
  case clone hSrc => exact hNormalized _ _ hSrc
  case write => exact hc.elim
  case setSize => exact hc.elim
  case trim => exact normalized_trimmed _
  case wipe => exact normalized_of_size_eq_zero rfl
  case reserve hb => exact (hNormalized _ _ hb).grown (hRegs _ _ hb) _
  case copyFrom _ ha => exact (hNormalized _ _ ha.2).copied (hRegs _ _ ha.2) _
  -- results of arithmetic are trimmed after they are written
  case setSquare => exact normalized_filled _ _
  case setProduct => exact normalized_filled _ _
  case setSum => exact normalized_filled _ _
  case setDifference => exact normalized_filled _ _

/-- A command on numbers brings no leading zero in, whether it answers or fails. -/
theorem Execution.normalized (hRegs : regs.WellFormed) (hNormalized : regs.Normalized)
    {c : Command w} (hc : c.OnNumbers) {t : Traced (Reply w)} {next : Registers w}
    (h : Execution regs dst c t next) : next.Normalized := by
  cases h with
  | planned hPlan =>
    intro r b hb
    rcases Registers.of_lookup_set hb with hState | hKept
    · exact hPlan.normalized hRegs hNormalized hc hState
    · exact hNormalized r b hKept
  | applied => exact hc.elim
  | refused | exceeded | faulted | asked => exact hNormalized

theorem step_normalized (hAlu : alu.Lawful) (hRegs : regs.WellFormed)
    (hNormalized : regs.Normalized) {s : Step w} (hs : s.command.OnNumbers) :
    (step alu regs s).2.Normalized := by
  obtain ⟨t, next, hExecution, hStep⟩ := step_execution hAlu hRegs s
  rw [hStep]
  exact hExecution.normalized hRegs hNormalized hs

-- ---------------------------------------------------------------------------
-- Runs
-- ---------------------------------------------------------------------------

theorem run_normalized (hAlu : alu.Lawful) : ∀ (steps : List (Step w)) (regs : Registers w),
    (∀ s ∈ steps, s.command.OnNumbers) → regs.WellFormed → regs.Normalized →
      (run alu steps regs).2.Normalized := by
  intro steps
  induction steps with
  | nil =>
    intro regs _ _ hNormalized
    exact hNormalized
  | cons s steps ih =>
    intro regs hSteps hRegs hNormalized
    rw [List.forall_mem_cons] at hSteps
    exact ih _ hSteps.2 (step_wellFormed hAlu hRegs s)
      (step_normalized hAlu hRegs hNormalized hSteps.1)

/-- **Sessions on numbers keep all buffers comparable.** After every step of a run that neither
writes to slots nor chooses sizes, the top limb of each number is not zero; so any two buffers can
be compared, the answer is the order of their numbers, and only identical limbs compare equal. -/
theorem run_comparable (impl : Implementation w) (n : ℕ) {steps : List (Step w)}
    (hSteps : ∀ s ∈ steps, s.command.OnNumbers) (k : ℕ) :
    let regs := (run impl.alu (steps.take k) (Registers.empty w n)).2
    (∀ r b, regs.lookup r = some b →
      b.size = 0 ∨ ∃ x, b.slots[b.size - 1]? = some x ∧ x ≠ 0) ∧
    ∀ q r a b, regs.lookup q = some a → regs.lookup r = some b →
      ∃ xs ys, a.limbs = .ok xs ∧ b.limbs = .ok ys ∧
        Limbs.compareNormalized impl.alu xs ys = .ok (compare a.value b.value) ∧
        (compare a.value b.value = .eq ↔ xs = ys) := by
  intro regs
  have hRegs : regs.WellFormed :=
    run_wellFormed impl.lawful (steps.take k) (Registers.wellFormed_empty n)
  have hNormalized : regs.Normalized := by
    refine run_normalized impl.lawful _ _ ?_ (Registers.wellFormed_empty n) ?_
    · intro s hs
      exact hSteps s (List.mem_of_mem_take hs)
    · intro r b hb
      rw [Registers.lookup_empty] at hb
      cases hb
  constructor
  · intro r b hb
    exact (hNormalized r b hb).top (hRegs r b hb)
  · intro q r a b ha hb
    obtain ⟨hOrder, hEqual⟩ := (hNormalized q a ha).compare impl.lawful (hNormalized r b hb)
    exact ⟨_, _, (hRegs q a ha).limbs_eq, (hRegs r b hb).limbs_eq, hOrder, hEqual⟩

/-- A session with a difference that is two limbs shorter than its operands. -/
def cancelling : List (Step .w32) :=
  [⟨0, .new 0 .ordinary⟩, ⟨1, .ofLimbs [5, 0, 7, 0] .ordinary⟩, ⟨2, .ofLimbs [3, 0, 7] .secure⟩,
    ⟨0, .setDifference 1 2⟩]

theorem run_comparable_cancelling :
    (∀ s ∈ cancelling, s.command.OnNumbers) ∧
      ∃ a b, (run (Implementation.portable .w32).alu (cancelling.take 4)
          (Registers.empty .w32 3)).2.lookup 0 = some a ∧
        (run (Implementation.portable .w32).alu (cancelling.take 4)
          (Registers.empty .w32 3)).2.lookup 1 = some b ∧
        a.limbs = .ok [2] ∧ b.limbs = .ok [5, 0, 7] ∧
        Limbs.compareNormalized (Implementation.portable .w32).alu [2] [5, 0, 7] = .ok .lt := by
  have hSteps : ∀ s ∈ cancelling, s.command.OnNumbers := by
    simp [cancelling, Command.OnNumbers]
  obtain ⟨xs, ys, hxs, hys, hOrder, -⟩ :=
    (run_comparable (.portable .w32) 3 hSteps 4).2 0 1 _ _ rfl rfl
  cases hxs
  cases hys
  exact ⟨hSteps, _, _, rfl, rfl, rfl, rfl, hOrder⟩

end Session

end LimbArith
