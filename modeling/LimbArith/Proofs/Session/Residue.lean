import LimbArith.Proofs.Session.Normalization

/-!
# LimbArith — what stays above a number

A copy wipes the limbs of the old number that reach above the new one. It looks
no further: what was above the old number already stays where it is. So a copy
leaves nothing behind only if nothing was there before, and that depends on the
whole history of the destination.

Most commands leave nothing above a number. The exception is arithmetic. A result
is written to as many slots as its operands call for; if the old number reached
higher, its upper limbs stay, out of reach of any copy that comes later. The
operations that wipe, or that grow a buffer, do remove them.

Main results:

* `Buffer.Clean` — nothing is left above the number.
* `slots_copied`, `slots_stored` — all slots after a copy and after arithmetic.
* `Planned.clean_iff_covers` — a result leaves something exactly if it is shorter
  than the number it replaces.
* `run_residue` — what every copy of a run leaves, and when none leaves anything.
* `residual_not_clean` — a run whose last copy does.
-/

namespace LimbArith

variable {w : Width}

-- ---------------------------------------------------------------------------
-- Slots above a number
-- ---------------------------------------------------------------------------

namespace Buffer

variable {b src : Buffer w} {n : ℕ}

/-- All slots from position `n` on are zero. -/
def ZeroFrom (b : Buffer w) (n : ℕ) : Prop := ∀ x ∈ b.slots.drop n, x = 0

/-- Nothing is left in the slots above the number. -/
def Clean (b : Buffer w) : Prop := b.ZeroFrom b.size

theorem ZeroFrom.mono {m : ℕ} (h : b.ZeroFrom m) (hLe : m ≤ n) : b.ZeroFrom n := by
  intro x hx
  obtain ⟨k, rfl⟩ := Nat.exists_eq_add_of_le hLe
  rw [← List.drop_drop] at hx
  exact h x (List.mem_of_mem_drop hx)

/-- What is left is in the rest of the slots, if the limbs below it are zeros. -/
theorem zeroFrom_iff {xs rest : Limbs w} (hSlots : b.slots = xs ++ rest) (hLe : n ≤ xs.length)
    (hZeros : ∀ x ∈ xs.drop n, x = 0) : b.ZeroFrom n ↔ ∀ x ∈ rest, x = 0 := by
  unfold ZeroFrom
  rw [hSlots, List.drop_append_of_le_length hLe]
  constructor
  · intro h x hx
    exact h x (List.mem_append_right _ hx)
  · intro h x hx
    rcases List.mem_append.mp hx with hBelow | hRest
    · exact hZeros x hBelow
    · exact h x hRest

/-- Slots in which zeros follow a number of `n` limbs. -/
theorem zeroFrom_padded_iff {xs rest : Limbs w} {k : ℕ}
    (hSlots : b.slots = xs ++ List.replicate k 0 ++ rest) (hLength : xs.length = n) :
    b.ZeroFrom n ↔ ∀ x ∈ rest, x = 0 := by
  refine zeroFrom_iff hSlots (by simp [hLength]) ?_
  intro x hx
  rw [List.drop_left' hLength] at hx
  exact List.eq_of_mem_replicate hx

/-- Slots in which a number is followed by the leading zeros that it was written with. -/
theorem zeroFrom_significantLen_iff {xs rest : Limbs w} (hSlots : b.slots = xs ++ rest) :
    b.ZeroFrom xs.significantLen ↔ ∀ x ∈ rest, x = 0 :=
  zeroFrom_iff hSlots (Limbs.significantLen_le xs) fun _ => Limbs.eq_zero_of_mem_drop

theorem clean_blank (n : ℕ) (sensitivity : Sensitivity) : (blank w n sensitivity).Clean := by
  intro x hx
  exact List.eq_of_mem_replicate (List.mem_of_mem_drop hx)

theorem clean_wipe (b : Buffer w) : b.wipe.Clean := by
  intro x hx
  exact List.eq_of_mem_replicate (List.mem_of_mem_drop hx)

theorem clean_filled_iff {xs : Limbs w} : (b.filled xs).Clean ↔ b.ZeroFrom xs.length :=
  zeroFrom_significantLen_iff rfl

theorem clean_holding (xs : Limbs w) (sensitivity : Sensitivity) :
    (holding xs sensitivity).Clean :=
  clean_filled_iff.mpr ((clean_blank xs.length sensitivity).mono (Nat.zero_le _))

theorem clean_trimmed_iff : b.trimmed.Clean ↔ b.Clean :=
  zeroFrom_significantLen_iff (List.take_append_drop b.size b.slots).symm

theorem Clean.grown (h : b.Clean) (hb : b.WellFormed) (n : ℕ) : (b.grown n).Clean := by
  unfold Buffer.grown
  split
  · exact h
  · have hSlots := (List.append_nil (b.slots.take b.size ++ List.replicate (n - b.size) 0)).symm
    exact (zeroFrom_padded_iff hSlots hb.length_take).mpr nofun

-- ---------------------------------------------------------------------------
-- Copies and results
-- ---------------------------------------------------------------------------

/-- A destination that grows to `n` slots has none above, and one that does not grow keeps them. -/
theorem drop_roomy (hb : b.WellFormed) (secure : Bool) {m : ℕ} (hLe : n ≤ m) :
    (b.roomy n secure).slots.drop m = b.slots.drop m := by
  by_cases hRoom : n ≤ b.capacity
  · unfold roomy Buffer.grown
    rw [if_pos hRoom]
    rfl
  · have hCapacity := capacity_roomy hb n secure
    unfold capacity at hRoom hCapacity
    rw [List.drop_of_length_le (by omega), List.drop_of_length_le (by omega)]

/-- All slots after a copy: the number, zeros up to the end of the old number, and from there on
what was there. -/
theorem slots_copied (hb : b.WellFormed) (secure : Bool) :
    ((b.roomy src.size secure).copied src).slots
      = src.slots.take src.size ++ List.replicate (b.size - src.size) 0
        ++ b.slots.drop (max src.size b.size) := by
  have hEnd : src.size + (b.size - src.size) = max src.size b.size := by omega
  unfold Buffer.copied
  rw [size_roomy, hEnd, drop_roomy hb secure (le_max_left ..)]

theorem clean_copied_iff (hb : b.WellFormed) (hSrc : src.WellFormed) (secure : Bool) :
    ((b.roomy src.size secure).copied src).Clean ↔ b.ZeroFrom (max src.size b.size) :=
  zeroFrom_padded_iff (slots_copied hb secure) hSrc.length_take

/-- All slots after arithmetic: the limbs of the result, and above them what was there. -/
theorem slots_stored (hb : b.WellFormed) (secure : Bool) (n v : ℕ) :
    (b.stored secure n v).slots = Digits.ofNat n v ++ b.slots.drop n := by
  show Digits.ofNat n v ++ (b.roomy n secure).slots.drop (Digits.ofNat n v).length = _
  rw [Digits.length_ofNat, drop_roomy hb secure le_rfl]

theorem clean_stored_iff (hb : b.WellFormed) (secure : Bool) (n v : ℕ) :
    (b.stored secure n v).Clean ↔ b.ZeroFrom n :=
  zeroFrom_significantLen_iff (slots_stored hb secure n v)

/-- Over a number without leading zeros and nothing above it, a result leaves something exactly if
it has fewer limbs. -/
theorem Clean.zeroFrom_iff (h : b.Clean) (hb : b.WellFormed) (hTop : b.Normalized) :
    b.ZeroFrom n ↔ b.size ≤ n := by
  constructor
  · intro hZero
    by_contra hShort
    rcases hTop.top hb with hEmpty | ⟨x, hx, hNonzero⟩
    · omega
    · refine hNonzero (hZero x ?_)
      rw [List.mem_iff_getElem?]
      refine ⟨b.size - 1 - n, ?_⟩
      rw [List.getElem?_drop, Nat.add_sub_cancel' (by omega), hx]
  · intro hLe
    exact h.mono hLe

end Buffer

-- ---------------------------------------------------------------------------
-- Commands
-- ---------------------------------------------------------------------------

namespace Session

open Buffer

variable {alu : Alu w} {regs : Registers w} {dst : ℕ}

/-- The command computes a number from others. -/
def Command.Computes : Command w → Prop
  | .setSquare _ | .setProduct _ _ | .setSum _ _ | .setDifference _ _ => True
  | _ => False

/-- If the command computes a number, that takes at least as many slots as the old number of its
destination. -/
def Command.Covers (regs : Registers w) (dst : ℕ) (c : Command w) : Prop :=
  c.Computes → ∀ b p, regs.lookup dst = some b → Planned regs dst c p → b.size ≤ p.limbs

/-- No buffer in a register has anything left above its number. -/
def Registers.Clean (regs : Registers w) : Prop :=
  ∀ r b, regs.lookup r = some b → b.Clean

theorem clean_empty (n : ℕ) : (Registers.empty w n).Clean := by
  intro r b hb
  rw [Registers.lookup_empty] at hb
  cases hb

/-- A computed number leaves nothing above it exactly if there was nothing above its slots. -/
theorem Planned.computed_clean_iff (hRegs : regs.WellFormed) {c : Command w} (hc : c.Computes)
    {p : Plan w} {b d : Buffer w} (h : Planned regs dst c p) (hb : regs.lookup dst = some b)
    (hState : p.state = some d) : d.Clean ↔ b.ZeroFrom p.limbs := by
  cases h with
  | setSquare hDst | setProduct hDst | setSum hDst | setDifference hDst =>
    cases hState
    obtain rfl := Option.some.inj (hb.symm.trans hDst)
    exact clean_stored_iff (hRegs _ _ hb) ..
  | _ => exact hc.elim

/-- Where nothing was left before, a computed number leaves something exactly if it does not cover
the old one. -/
theorem Planned.clean_iff_covers (hRegs : regs.WellFormed) (hClean : regs.Clean)
    (hNormalized : regs.Normalized) {c : Command w} (hc : c.Computes) {p : Plan w} {b d : Buffer w}
    (h : Planned regs dst c p) (hb : regs.lookup dst = some b) (hState : p.state = some d) :
    d.Clean ↔ c.Covers regs dst := by
  rw [h.computed_clean_iff hRegs hc hb hState,
    (hClean _ _ hb).zeroFrom_iff (hRegs _ _ hb) (hNormalized _ _ hb)]
  constructor
  · intro hLe _ b' p' hb' hPlan
    -- a command has one plan for the buffer that it finds
    cases Option.some.inj (hb.symm.trans hb')
    cases (plan_of_planned h).symm.trans (plan_of_planned hPlan)
    exact hLe
  · intro hCovers
    exact hCovers hc b p hb h

theorem Planned.clean (hRegs : regs.WellFormed) (hClean : regs.Clean) {c : Command w}
    (hc : c.OnNumbers) (hCovers : c.Covers regs dst) {p : Plan w} {b : Buffer w}
    (h : Planned regs dst c p) (hState : p.state = some b) : b.Clean := by
  -- a result that covers the old number ends where the zeros begin, or above
  have hComputed : c.Computes → ∀ d, regs.lookup dst = some d → b.Clean := by
    intro hComputes d hd
    exact (h.computed_clean_iff hRegs hComputes hd hState).mpr
      ((hClean _ _ hd).mono (hCovers hComputes d p hd h))
  cases h <;> cases hState
  case new => exact clean_blank _ _
  case ofLimbs => exact clean_holding _ _
  case ofBytes => exact clean_holding _ _
  case clone hSrc => exact hClean _ _ hSrc
  case write => exact hc.elim
  case setSize => exact hc.elim
  case trim hb => exact clean_trimmed_iff.mpr (hClean _ _ hb)
  case wipe => exact clean_wipe _
  case reserve hb => exact (hClean _ _ hb).grown (hRegs _ _ hb) _
  case copyFrom hb ha =>
    exact (clean_copied_iff (hRegs _ _ hb) (hRegs _ _ ha.2) _).mpr
      ((hClean _ _ hb).mono (le_max_right ..))
  case setSquare hb _ => exact hComputed trivial _ hb
  case setProduct hb _ _ => exact hComputed trivial _ hb
  case setSum hb _ _ => exact hComputed trivial _ hb
  case setDifference hb _ _ => exact hComputed trivial _ hb

theorem step_clean (hAlu : alu.Lawful) (hRegs : regs.WellFormed) (hClean : regs.Clean)
    {s : Step w} (hs : s.command.OnNumbers) (hCovers : s.command.Covers regs s.dst) :
    (step alu regs s).2.Clean := by
  obtain ⟨t, next, hExecution, hStep⟩ := step_execution hAlu hRegs s
  rw [hStep]
  obtain ⟨dst, c⟩ := s
  cases hExecution with
  | planned hPlan =>
    intro r b hb
    rcases Registers.of_lookup_set hb with hState | hKept
    · exact hPlan.clean hRegs hClean hs hCovers hState
    · exact hClean r b hKept
  | applied => exact hs.elim
  | refused | exceeded | faulted | asked => exact hClean

/-- A copy that succeeds, with the buffers it found and the one it left. -/
theorem step_copy (hAlu : alu.Lawful) (hRegs : regs.WellFormed) {src : ℕ}
    (hReply : (step alu regs ⟨dst, .copyFrom src⟩).1.reply = .ok .done) :
    ∃ b a, regs.lookup dst = some b ∧ regs.lookup src = some a ∧
      (step alu regs ⟨dst, .copyFrom src⟩).1.state
        = some ((b.roomy a.size a.isSecure).copied a) := by
  obtain ⟨t, next, hExecution, hStep⟩ := step_execution hAlu hRegs ⟨dst, .copyFrom src⟩
  rw [hStep] at hReply ⊢
  cases hExecution with
  | planned hPlan =>
    cases hPlan with
    | copyFrom hb ha =>
      exact ⟨_, _, hb, ha.2, Registers.lookup_set_self (Registers.lt_of_lookup hb) _⟩
  | asked hPlan => cases hPlan
  | refused | faulted => cases hReply

-- ---------------------------------------------------------------------------
-- Runs
-- ---------------------------------------------------------------------------

/-- Every number that is computed in a run covers the one it replaces. -/
def Covering (alu : Alu w) : List (Step w) → Registers w → Prop
  | [], _ => True
  | s :: steps, regs => s.command.Covers regs s.dst ∧ Covering alu steps (step alu regs s).2

theorem Covering.take {steps : List (Step w)} (h : Covering alu steps regs) (k : ℕ) :
    Covering alu (steps.take k) regs := by
  induction steps generalizing regs k with
  | nil => simp [Covering]
  | cons s steps ih =>
    cases k with
    | zero => trivial
    | succ k => exact ⟨h.1, ih h.2 k⟩

theorem run_clean (hAlu : alu.Lawful) : ∀ (steps : List (Step w)) (regs : Registers w),
    (∀ s ∈ steps, s.command.OnNumbers) → Covering alu steps regs → regs.WellFormed →
      regs.Clean → (run alu steps regs).2.Clean := by
  intro steps
  induction steps with
  | nil =>
    intro regs _ _ _ hClean
    exact hClean
  | cons s steps ih =>
    intro regs hSteps hCovering hRegs hClean
    rw [List.forall_mem_cons] at hSteps
    exact ih _ hSteps.2 hCovering.2 (step_wellFormed hAlu hRegs s)
      (step_clean hAlu hRegs hClean hSteps.1 hCovering.1)

/-- A copy that succeeds at some place of a run. -/
theorem run_copy (hAlu : alu.Lawful) {steps : List (Step w)} {k src : ℕ} {outcome : Outcome w}
    (hRegs : (run alu (steps.take k) regs).2.WellFormed)
    (hStep : steps[k]? = some ⟨dst, .copyFrom src⟩)
    (hOutcome : (run alu steps regs).1[k]? = some outcome) (hReply : outcome.reply = .ok .done) :
    ∃ b a, (run alu (steps.take k) regs).2.lookup dst = some b ∧
      (run alu (steps.take k) regs).2.lookup src = some a ∧
      outcome.state = some ((b.roomy a.size a.isSecure).copied a) := by
  rw [(run_step hStep alu regs).1] at hOutcome
  obtain rfl := Option.some.inj hOutcome
  exact step_copy hAlu hRegs hReply

/-- No copy that succeeds in a run leaves anything above the number. -/
def CopiesCleanly (alu : Alu w) (n : ℕ) (steps : List (Step w)) : Prop :=
  ∀ (k dst src : ℕ) (outcome : Outcome w) (c : Buffer w), steps[k]? = some ⟨dst, .copyFrom src⟩ →
    (run alu steps (Registers.empty w n)).1[k]? = some outcome → outcome.reply = .ok .done →
      outcome.state = some c → c.Clean

/-- **A copy wipes the old number and nothing else.** After every copy that succeeds in a run, the
slots of the destination are the copied number, zeros up to the end of the old number, and above
that whatever was there; so anything is left above the new number exactly if something was above
both. If the run is on numbers, and every number that is computed in it takes at least as many slots
as the one it replaces, no copy leaves anything. -/
theorem run_residue (impl : Implementation w) (n : ℕ) (steps : List (Step w)) :
    (∀ (k dst src : ℕ) (outcome : Outcome w), steps[k]? = some ⟨dst, .copyFrom src⟩ →
      (run impl.alu steps (Registers.empty w n)).1[k]? = some outcome →
      outcome.reply = .ok .done →
      let regs := (run impl.alu (steps.take k) (Registers.empty w n)).2
      ∃ b a c, regs.lookup dst = some b ∧ regs.lookup src = some a ∧ outcome.state = some c ∧
        c.size = a.size ∧
        c.slots = a.slots.take a.size ++ List.replicate (b.size - a.size) 0
          ++ b.slots.drop (max a.size b.size) ∧
        (c.Clean ↔ b.ZeroFrom (max a.size b.size))) ∧
    ((∀ s ∈ steps, s.command.OnNumbers) → Covering impl.alu steps (Registers.empty w n) →
      CopiesCleanly impl.alu n steps) := by
  have hRegs : ∀ k, (run impl.alu (steps.take k) (Registers.empty w n)).2.WellFormed := by
    intro k
    exact run_wellFormed impl.lawful (steps.take k) (Registers.wellFormed_empty n)
  constructor
  · intro k dst src outcome hStep hOutcome hReply regs
    obtain ⟨b, a, hb, ha, hState⟩ := run_copy impl.lawful (hRegs k) hStep hOutcome hReply
    have hWell := hRegs k _ _ hb
    exact ⟨b, a, _, hb, ha, hState, rfl, slots_copied hWell _,
      clean_copied_iff hWell (hRegs k _ _ ha) _⟩
  · intro hSteps hCovering k dst src outcome c hStep hOutcome hReply hc
    obtain ⟨b, a, hb, ha, hState⟩ := run_copy impl.lawful (hRegs k) hStep hOutcome hReply
    obtain rfl := Option.some.inj (hc.symm.trans hState)
    have hClean : (run impl.alu (steps.take k) (Registers.empty w n)).2.Clean := by
      refine run_clean impl.lawful _ _ ?_ (hCovering.take k) (Registers.wellFormed_empty n)
        (clean_empty n)
      intro s hs
      exact hSteps s (List.mem_of_mem_take hs)
    exact (clean_copied_iff (hRegs k _ _ hb) (hRegs k _ _ ha) _).mpr
      ((hClean _ _ hb).mono (le_max_right ..))

/-- A session in which a square of four limbs replaces a number of three, and then a number of two
limbs is copied there. -/
def covered : List (Step .w32) :=
  [⟨0, .ofLimbs [1, 2, 3] .ordinary⟩, ⟨1, .ofLimbs [9, 8] .secure⟩, ⟨0, .setSquare 1⟩,
    ⟨0, .copyFrom 1⟩]

theorem run_residue_covered :
    (∀ s ∈ covered, s.command.OnNumbers) ∧
      Covering (Implementation.portable .w32).alu covered (Registers.empty .w32 2) ∧
      CopiesCleanly (Implementation.portable .w32).alu 2 covered := by
  have hSteps : ∀ s ∈ covered, s.command.OnNumbers := by
    simp [covered, Command.OnNumbers]
  have hCovering :
      Covering (Implementation.portable .w32).alu covered (Registers.empty .w32 2) := by
    refine ⟨False.elim, False.elim, ?_, False.elim, trivial⟩
    intro _ b p hb hPlan
    cases hPlan with
    | @setSquare _ _ a _ ha =>
      have hOld : b.size = 3 := by
        cases hb
        rfl
      have hFactor : a.size = 2 := by
        cases ha.2
        rfl
      show b.size ≤ a.size + a.size
      omega
  exact ⟨hSteps, hCovering, (run_residue (.portable .w32) 2 covered).2 hSteps hCovering⟩

/-- A session in which the square of a short number replaces a long one, and then another number
is copied there. -/
def residual : List (Step .w64) :=
  [⟨0, .ofLimbs [1, 2, 3] .ordinary⟩, ⟨1, .ofLimbs [9] .ordinary⟩, ⟨0, .setSquare 1⟩,
    ⟨0, .copyFrom 1⟩]

/-- The copy of one limb leaves the top limb of the first number. -/
theorem residual_not_clean :
    (∀ s ∈ residual, s.command.OnNumbers) ∧
      ¬ CopiesCleanly Implementation.machine.alu 8 residual := by
  refine ⟨by simp [residual, Command.OnNumbers], ?_⟩
  intro hClean
  have hLeft : (3 : Limb .w64) = 0 := by
    refine hClean 3 0 1 _ ⟨[9, 0, 3], 1, .ordinary⟩ rfl rfl rfl rfl 3 ?_
    simp
  cases hLeft

end Session

end LimbArith
