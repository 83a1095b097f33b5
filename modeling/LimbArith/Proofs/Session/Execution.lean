import LimbArith.Proofs.Session.Plan

/-!
# LimbArith — what a command can do

Whatever the registers hold, a command does one of six things, and in four of them
it leaves every register as it was. Everything later about steps and runs is an
analysis of these cases.

Main results:

* `Execution` — the six cases, with what is reported and left in each.
* `execution` — there are no others.
* `execute_planned`, `execute_refused`, `execute_exceeded` — when a command
  answers, and when storage refuses it.
-/

namespace LimbArith.Session

open Buffer InPlace Traced

variable {w : Width} {alu : Alu w} {regs : Registers w} {dst : ℕ}

/-- What a command does, with the registers it leaves. -/
inductive Execution (regs : Registers w) (dst : ℕ) :
    Command w → Traced (Reply w) → Registers w → Prop
  /-- It has its memory and does what is planned. -/
  | planned {c p} (hPlan : Planned regs dst c p) (hRoom : Allocatable w p.limbs) :
    Execution regs dst c ⟨p.events, .ok p.reply⟩ (regs.set dst p.state)
  /-- It is refused its memory. -/
  | refused {c p} (hPlan : Planned regs dst c p) (hRoom : ¬ Allocatable w p.limbs) :
    Execution regs dst c
      ⟨[.limbsRefused p.limbs], .error (.storage (.allocationFailed p.limbs))⟩ regs
  /-- It asks for a size above the capacity. -/
  | exceeded {n b} (hb : regs.lookup dst = some b) (hn : b.capacity < n) :
    Execution regs dst (.setSize n)
      ⟨[], .error (.storage (.insufficientCapacity n b.capacity))⟩ regs
  /-- It fails a check. -/
  | faulted {c f} : Execution regs dst c ⟨[], .error (.fault f)⟩ regs
  /-- It only looks at buffers. -/
  | asked {c reply} (hPlan : plan regs dst c = none) : Execution regs dst c ⟨[], .ok reply⟩ regs
  /-- It writes over slots of its buffer. -/
  | applied {target call b slots reply} (hb : regs.lookup dst = some b)
      (hLength : slots.length = b.slots.length) :
    Execution regs dst (.apply target call) ⟨[], .ok reply⟩ (regs.set dst (some { b with slots }))

-- ---------------------------------------------------------------------------
-- Commands with a plan
-- ---------------------------------------------------------------------------

theorem execute_planned (hAlu : alu.Lawful) (hRegs : regs.WellFormed) {c : Command w} {p : Plan w}
    (hPlan : Planned regs dst c p) (hRoom : Allocatable w p.limbs) :
    execute alu dst c regs = (⟨p.events, .ok p.reply⟩, regs.set dst p.state) := by
  rw [execute_eq hAlu hRegs (plan_of_planned hPlan)]
  show settle regs (follow regs dst p) = _
  rw [follow, supply, if_pos hRoom]
  rfl

theorem execute_refused (hAlu : alu.Lawful) (hRegs : regs.WellFormed) {c : Command w} {p : Plan w}
    (hPlan : Planned regs dst c p) (hRoom : ¬ Allocatable w p.limbs) :
    execute alu dst c regs
      = (⟨[.limbsRefused p.limbs], .error (.storage (.allocationFailed p.limbs))⟩, regs) := by
  rw [execute_eq hAlu hRegs (plan_of_planned hPlan)]
  show settle regs (follow regs dst p) = _
  rw [follow, supply, if_neg hRoom]
  rfl

theorem execute_unready (hAlu : alu.Lawful) (hRegs : regs.WellFormed) {c : Command w} {e : Failure}
    (hPlan : plan regs dst c = some (.error e)) :
    execute alu dst c regs = (⟨[], .error e⟩, regs) := by
  rw [execute_eq hAlu hRegs hPlan]
  rfl

theorem execute_exceeded (hAlu : alu.Lawful) (hRegs : regs.WellFormed) {b : Buffer w} {n : ℕ}
    (hb : regs.lookup dst = some b) (hn : b.capacity < n) :
    execute alu dst (.setSize n) regs
      = (⟨[], .error (.storage (.insufficientCapacity n b.capacity))⟩, regs) := by
  refine execute_unready hAlu hRegs ?_
  rw [plan, Traced.liftM_bind_of_ok (Registers.get_eq_ok_iff.mpr hb), if_neg (not_le.mpr hn)]
  rfl

-- ---------------------------------------------------------------------------
-- Commands without a plan
-- ---------------------------------------------------------------------------

theorem query_eq (f : Registers w → Buffer w → Traced (Reply w)) :
    query dst f regs = (liftM (regs.get dst) >>= f regs, regs) := by
  unfold query
  rw [get_bind]
  cases regs.get dst <;> rfl

theorem update_of_ok {op : Registers w → InPlace (Buffer w) (Reply w)} {b : Buffer w}
    (hb : regs.get dst = .ok b) :
    update dst op regs = ((op regs b).1, regs.set dst (some (op regs b).2)) := by
  unfold update
  rw [get_bind, hb]
  rfl

/-- A command that only looks at a buffer reports nothing. -/
theorem query_execution {c : Command w} {f : Registers w → Buffer w → Traced (Reply w)}
    (hPlan : plan regs dst c = none)
    (h : ∀ b, regs.lookup dst = some b → (f regs b).IsCheck) :
    Execution regs dst c (query dst f regs).1 (query dst f regs).2 := by
  rw [query_eq]
  cases hb : regs.get dst with
  | error e => exact .faulted
  | ok b =>
    obtain ⟨answer, hAnswer⟩ := h b (Registers.get_eq_ok_iff.mp hb)
    rw [Traced.liftM_ok, pure_bind, hAnswer]
    cases answer with
    | error e => exact .faulted
    | ok reply => exact .asked hPlan

/-- An array operation on slots changes no more than these. -/
theorem applyCall_ok {b c : Buffer w} {target : Target} {call : Call (Source w) (Limb w)}
    {reply : Reply w} (h : applyCall alu regs b target call = .ok (reply, c)) :
    ∃ slots : Limbs w, slots.length = b.slots.length ∧ c = { b with slots } := by
  obtain ⟨resolved, -, hRest⟩ := bind_eq_ok_iff.mp h
  obtain ⟨answer, -, hRest⟩ := bind_eq_ok_iff.mp hRest
  dsimp only at hRest
  -- only an operation that answers with limbs is written back
  split at hRest
  · obtain ⟨slots, hSlots, hDone⟩ := bind_eq_ok_iff.mp hRest
    obtain ⟨_, hLength, hCopied⟩ := bind_eq_ok_iff.mp hSlots
    cases hCopied
    cases hDone
    exact ⟨_, (require_eq_ok_iff.mp hLength).symm, rfl⟩
  · obtain ⟨slots, hSlots, hDone⟩ := bind_eq_ok_iff.mp hRest
    cases hSlots
    cases hDone
    exact ⟨b.slots, rfl, rfl⟩

theorem apply_execution (alu : Alu w) (regs : Registers w) (dst : ℕ) (target : Target)
    (call : Call (Source w) (Limb w)) :
    Execution regs dst (.apply target call) (execute alu dst (.apply target call) regs).1
      (execute alu dst (.apply target call) regs).2 := by
  cases hb : regs.get dst with
  | error e =>
    rw [execute, update, get_bind, hb]
    exact .faulted
  | ok b =>
    have hLookup := Registers.get_eq_ok_iff.mp hb
    rw [execute, update_of_ok hb, get_bind]
    cases hCall : applyCall alu regs b target call with
    | error e =>
      have hSame : regs.set dst (some b) = regs := by
        rw [← hLookup]
        exact Registers.set_lookup regs dst
      show Execution regs dst _ _ (regs.set dst (some b))
      rw [hSame]
      exact .faulted
    | ok answer =>
      obtain ⟨reply, c⟩ := answer
      obtain ⟨slots, hLength, hSlots⟩ := applyCall_ok hCall
      show Execution regs dst _ _ (regs.set dst (some c))
      rw [hSlots]
      exact .applied hLookup hLength

-- ---------------------------------------------------------------------------
-- All commands
-- ---------------------------------------------------------------------------

theorem execution (hAlu : alu.Lawful) (hRegs : regs.WellFormed) (dst : ℕ) (c : Command w) :
    Execution regs dst c (execute alu dst c regs).1 (execute alu dst c regs).2 := by
  cases hPlan : plan regs dst c with
  | some result =>
    cases result with
    | ok p =>
      by_cases hRoom : Allocatable w p.limbs
      · rw [execute_planned hAlu hRegs (planned_of_plan hPlan) hRoom]
        exact .planned (planned_of_plan hPlan) hRoom
      · rw [execute_refused hAlu hRegs (planned_of_plan hPlan) hRoom]
        exact .refused (planned_of_plan hPlan) hRoom
    | error e =>
      rw [execute_unready hAlu hRegs hPlan]
      rcases plan_error hPlan with ⟨fault, rfl⟩ | ⟨n, b, rfl, hb, hn, rfl⟩
      · exact .faulted
      · exact .exceeded hb hn
  | none =>
    -- only questions and array operations have no plan
    cases c with
    | apply target call => exact apply_execution alu regs dst target call
    | toBytes =>
      refine query_execution hPlan fun b hb => ?_
      exact .bind ⟨_, toBytes_eq hAlu (hRegs _ _ hb)⟩ fun _ => isCheck_pure _
    | info | bitLength | debugText | debugLines | hex =>
      exact query_execution hPlan fun _ _ => .bind (isCheck_liftM _) fun _ => isCheck_pure _
    | compare src =>
      exact query_execution hPlan fun _ _ => .bind (isCheck_liftM _) fun _ =>
        .bind (isCheck_liftM _) fun _ => .bind (isCheck_liftM _) fun _ =>
          .bind (isCheck_liftM _) fun _ => isCheck_pure _
    | _ => cases hPlan

end LimbArith.Session
