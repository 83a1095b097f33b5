import LimbArith.Proofs.Session.Registers
import LimbArith.Proofs.Storage.Arithmetic
import LimbArith.Proofs.Storage.Bytes

/-!
# LimbArith — what a command is going to do

A command about buffers first reads registers, which may fail; then it takes
memory, which may be refused; after that it does what it was going to do. Its plan
says what that is: the memory it takes, the events it reports, its answer and what
its register holds in the end.

Main results:

* `plan`, `execute_eq` — the plan of each command, and that it is followed.
* `planned_of_plan` — the plans there are, with what the registers hold then.
* `Planned.wellFormed` — a plan leaves a well-formed buffer if there is memory.
-/

namespace LimbArith.Session

open Buffer InPlace

variable {w : Width} {alu : Alu w} {regs : Registers w} {dst : ℕ}

/-- What a command does once it has its memory. -/
structure Plan (w : Width) where
  limbs : ℕ
  events : List Event
  reply : Reply w
  state : Option (Buffer w)

/-- Puts a new buffer into a register. -/
def newPlan (regs : Registers w) (dst n : ℕ) (b : Buffer w) : Plan w :=
  ⟨n, .allocated n b.sensitivity :: regs.ending dst, .done, some b⟩

/-- A plan to put a new buffer into a register, if there is that register and its slots can be
counted. -/
def planNew (regs : Registers w) (dst : ℕ) (count : Checked ℕ) (b : Buffer w) :
    Except Failure (Plan w) := do
  require (dst < regs.length) .outOfRange
  let n ← count
  pure (newPlan regs dst n b)

/-- A plan to change a buffer without more memory. -/
def planChange (b : Buffer w) : Plan w := ⟨0, [], .done, some b⟩

/-- A plan to copy the number of a buffer to another. -/
def planCopy (b x : Buffer w) : Plan w :=
  ⟨x.size, b.roomEvents x.size x.isSecure, .done, some ((b.roomy x.size x.isSecure).copied x)⟩

/-- A plan to write a number of `n` limbs to a buffer. -/
def planStore (b : Buffer w) (secure : Bool) (n v : ℕ) (reply : Reply w) : Plan w :=
  ⟨n, b.roomEvents n secure, reply, some (b.stored secure n v)⟩

/-- The plan of a command. Commands that only look at a buffer, or run an array operation on its
slots, have none. -/
def plan (regs : Registers w) (dst : ℕ) : Command w → Option (Except Failure (Plan w))
  | .new n sensitivity => some (planNew regs dst (pure n) (blank w n sensitivity))
  | .ofLimbs xs sensitivity => some (planNew regs dst (pure xs.length) (holding xs sensitivity))
  | .ofBytes bytes sensitivity =>
    some (planNew regs dst (limbsForBytes w bytes.length)
      (holding (limbsOfBytes w bytes) sensitivity))
  | .clone src => some do
    let b ← regs.get src
    planNew regs dst (pure b.capacity) b
  | .drop => some (pure ⟨0, regs.ending dst, .done, none⟩)
  | .write start xs => some do
    let b ← regs.get dst
    let b ← b.write start xs
    pure (planChange b)
  | .setSize n => some do
    let b ← regs.get dst
    if n ≤ b.capacity then pure (planChange { b with size := n })
    else throw (.storage (.insufficientCapacity n b.capacity))
  | .trim => some do
    let b ← regs.get dst
    pure (planChange b.trimmed)
  | .wipe => some do
    let b ← regs.get dst
    pure (planChange b.wipe)
  | .reserve n => some do
    let b ← regs.get dst
    pure ⟨n, b.growth n, .done, some (b.grown n)⟩
  | .copyFrom src => some do
    let b ← regs.get dst
    let x ← regs.operand dst src
    pure (planCopy b x)
  | .setSquare x => some do
    let b ← regs.get dst
    let x ← regs.operand dst x
    pure (planStore b x.isSecure (x.size + x.size) (x.value * x.value) .done)
  | .setProduct x y => some do
    let b ← regs.get dst
    let f ← factor regs dst x y
    let x ← regs.operand dst x
    let y := x.secondFactor f
    pure (planStore b (x.isSecure || y.isSecure) (x.size + y.size) (x.value * y.value) .done)
  | .setSum x y => some do
    let b ← regs.get dst
    let x ← regs.operand dst x
    let y ← regs.operand dst y
    pure (planStore b (x.isSecure || y.isSecure) (max x.size y.size + 1) (x.value + y.value) .done)
  | .setDifference x y => some do
    let b ← regs.get dst
    let x ← regs.operand dst x
    let y ← regs.operand dst y
    pure (planStore b (x.isSecure || y.isSecure) (max x.size y.size) (x.differenceFrom y)
      (.returned (.limb (x.borrowOf y))))
  | _ => none

/-- Follows a plan. -/
def follow (regs : Registers w) (dst : ℕ) (p : Plan w) : Traced (Reply w × Registers w) :=
  supply w p.limbs p.events (p.reply, regs.set dst p.state)

/-- A second factor is read like the first, whether it is the same buffer or not. -/
theorem factor_eq_ok {x y : ℕ} {a : Buffer w} {f : Factor (Buffer w)}
    (hf : factor regs dst x y = .ok f) (ha : regs.operand dst x = .ok a) :
    regs.operand dst y = .ok (a.secondFactor f) := by
  unfold Session.factor at hf
  by_cases h : y = x
  · rw [if_pos h] at hf
    cases hf
    rw [h]
    exact ha
  · rw [if_neg h] at hf
    obtain ⟨c, hc, hOther⟩ := bind_eq_ok_iff.mp hf
    cases hOther
    exact hc

/-- An operation on the buffer in a register, as a plan that is followed. -/
theorem supply_follow (regs : Registers w) (dst n : ℕ) (events : List Event) (reply : Reply w)
    (b : Buffer w) :
    (supply w n events ((), b) >>= fun r => pure (reply, regs.set dst (some r.2)))
      = follow regs dst ⟨n, events, reply, some b⟩ :=
  supply_bind_pure fun _ => rfl

theorem allocatable_zero : Allocatable w 0 := by
  rw [Allocatable, Nat.zero_mul]
  decide

theorem follow_planChange (regs : Registers w) (dst : ℕ) (b : Buffer w) :
    follow regs dst (planChange b) = pure (.done, regs.set dst (some b)) :=
  if_pos allocatable_zero

theorem replace_eq {count : Checked ℕ} {b : Buffer w} {make : Traced (Buffer w)}
    (hMake : make = liftM count >>= fun n => supply w n [.allocated n b.sensitivity] b) :
    replace dst make regs
      = settle regs (Traced.silent (planNew regs dst count b) >>= follow regs dst) := by
  simp only [replace, planNew, Traced.silent_bind, Traced.silent_liftM, bind_assoc,
    Traced.silent_pure, pure_bind, hMake, get_bind]
  refine liftM_bind_settle fun _ _ => ?_
  cases count with
  | ok n =>
    simp only [Traced.liftM_ok, pure_bind]
    refine settle_supply_bind (liftM_supply_eq ..) fun _ => ?_
    exact Prod.ext (Traced.ext (List.append_nil _) rfl) rfl
  | error e => rfl

/-- A change in place that settles does so in its register. -/
theorem update_eq {op : Registers w → InPlace (Buffer w) (Reply w)}
    {q : Buffer w → Except Failure (Plan w)}
    (h : ∀ b, regs.get dst = .ok b → ∃ t, op regs b = settle b t ∧
      (t >>= fun r => pure (r.1, regs.set dst (some r.2)))
        = Traced.silent (q b) >>= follow regs dst) :
    update dst op regs
      = settle regs (Traced.silent (liftM (regs.get dst) >>= q) >>= follow regs dst) := by
  simp only [update, get_bind, Traced.silent_bind, Traced.silent_liftM, bind_assoc]
  refine liftM_bind_settle fun b hb => ?_
  obtain ⟨t, hSettles, hFollows⟩ := h b hb
  rw [hSettles, ← hFollows]
  cases ht : t.outcome with
  | ok r =>
    rw [settle_of_ok ht, Traced.bind_of_ok ht]
    exact Prod.ext (Traced.ext (List.append_nil _).symm rfl) rfl
  | error e =>
    -- a buffer that is left alone goes back to where it was
    have hSame : regs.set dst (some b) = regs := by
      rw [← Registers.get_eq_ok_iff.mp hb]
      exact Registers.set_lookup regs dst
    rw [settle_of_error ht, Traced.bind_of_error ht]
    exact Prod.ext rfl hSame

theorem change_eq {op : Registers w → InPlace (Buffer w) Unit}
    {q : Buffer w → Except Failure (Plan w)}
    (h : ∀ b, regs.get dst = .ok b → ∃ t, op regs b = settle b t ∧
      (t >>= fun r => pure (.done, regs.set dst (some r.2)))
        = Traced.silent (q b) >>= follow regs dst) :
    change dst op regs
      = settle regs (Traced.silent (liftM (regs.get dst) >>= q) >>= follow regs dst) := by
  refine update_eq fun b hb => ?_
  obtain ⟨t, hSettles, hFollows⟩ := h b hb
  refine ⟨_, bind_pure_settle hSettles fun _ => Reply.done, ?_⟩
  rw [bind_assoc, ← hFollows]
  rfl

theorem execute_eq (hAlu : alu.Lawful) (hRegs : regs.WellFormed) {c : Command w}
    {p : Except Failure (Plan w)} (hPlan : plan regs dst c = some p) :
    execute alu dst c regs = settle regs (Traced.silent p >>= follow regs dst) := by
  cases c <;> cases hPlan
  case new n sensitivity => exact replace_eq (new_eq n sensitivity)
  case ofLimbs xs sensitivity => exact replace_eq (ofLimbs_eq xs sensitivity)
  case ofBytes bytes sensitivity => exact replace_eq (ofBytes_eq bytes sensitivity)
  case clone src =>
    simp only [execute, get_bind, Traced.silent_bind, Traced.silent_liftM, bind_assoc]
    exact liftM_bind_settle fun b _ => replace_eq b.clone_eq
  case drop =>
    have hFollow : follow regs dst ⟨0, regs.ending dst, .done, none⟩
        = ⟨regs.ending dst, .ok (.done, regs.set dst none)⟩ := if_pos allocatable_zero
    rw [Traced.silent_pure, pure_bind, hFollow]
    exact Prod.ext (Traced.ext (List.append_nil _) rfl) rfl
  -- all other commands read the buffer in their own register first
  case write start xs =>
    refine change_eq fun b _ => ⟨_, assign_eq _ b, ?_⟩
    simp only [Traced.silent_bind, Traced.silent_liftM, Traced.silent_pure, bind_assoc, pure_bind,
      follow_planChange]
  case setSize n =>
    refine change_eq fun b _ => ?_
    by_cases h : n ≤ b.capacity
    · refine ⟨pure ((), { b with size := n }), ?_, ?_⟩
      · rw [setSize, get_bind, if_pos h]
        rfl
      · rw [if_pos h, Traced.silent_pure, pure_bind, pure_bind, follow_planChange]
    · refine ⟨Traced.refuse (.insufficientCapacity n b.capacity), ?_, ?_⟩
      · rw [setSize, get_bind, if_neg h]
        rfl
      · rw [if_neg h]
        rfl
  case trim =>
    refine change_eq fun b hb => ⟨_, assign_eq _ b, ?_⟩
    rw [trim_eq (hRegs.get hb).size_le, Traced.silent_pure, pure_bind, follow_planChange]
    rfl
  case wipe =>
    refine change_eq fun b _ => ⟨pure ((), b.wipe), rfl, ?_⟩
    rw [Traced.silent_pure, pure_bind, pure_bind, follow_planChange]
  case reserve n =>
    refine change_eq fun b hb => ⟨_, reserve_eq (hRegs.get hb) n, ?_⟩
    rw [Traced.silent_pure, pure_bind]
    exact supply_follow ..
  case copyFrom src =>
    refine change_eq fun b hb => ⟨_, liftM_bind_settle fun x hx =>
      copyFrom_eq (hRegs.get hb) (hRegs.operand hx), ?_⟩
    simp only [Traced.silent_bind, Traced.silent_liftM, Traced.silent_pure, bind_assoc, pure_bind]
    exact Traced.liftM_bind_congr fun x _ => supply_follow ..
  case setSquare x =>
    refine change_eq fun b hb => ⟨_, liftM_bind_settle fun x hx =>
      setSquare_eq hAlu (hRegs.get hb) (hRegs.operand hx), ?_⟩
    simp only [Traced.silent_bind, Traced.silent_liftM, Traced.silent_pure, bind_assoc, pure_bind]
    exact Traced.liftM_bind_congr fun x _ => supply_follow ..
  case setProduct x y =>
    refine change_eq fun b hb => ⟨_, liftM_bind_settle fun f hf => liftM_bind_settle fun x hx =>
      setProduct_eq hAlu (hRegs.get hb) (hRegs.operand hx) (hRegs.operand (factor_eq_ok hf hx)) rfl,
      ?_⟩
    simp only [Traced.silent_bind, Traced.silent_liftM, Traced.silent_pure, bind_assoc, pure_bind]
    exact Traced.liftM_bind_congr fun f _ => Traced.liftM_bind_congr fun x _ => supply_follow ..
  case setSum x y =>
    refine change_eq fun b hb => ⟨_, liftM_bind_settle fun x hx => liftM_bind_settle fun y hy =>
      setSum_eq hAlu (hRegs.get hb) (hRegs.operand hx) (hRegs.operand hy), ?_⟩
    simp only [Traced.silent_bind, Traced.silent_liftM, Traced.silent_pure, bind_assoc, pure_bind]
    exact Traced.liftM_bind_congr fun x _ => Traced.liftM_bind_congr fun y _ => supply_follow ..
  case setDifference x y =>
    refine update_eq fun b hb => ⟨_, liftM_bind_settle fun x hx => liftM_bind_settle fun y hy =>
      bind_pure_settle (setDifference_eq hAlu (hRegs.get hb) (hRegs.operand hx)
        (hRegs.operand hy)) _, ?_⟩
    simp only [Traced.silent_bind, Traced.silent_liftM, Traced.silent_pure, bind_assoc, pure_bind]
    exact Traced.liftM_bind_congr fun x _ => Traced.liftM_bind_congr fun y _ =>
      supply_bind_pure fun _ => rfl

-- ---------------------------------------------------------------------------
-- Plans, command by command
-- ---------------------------------------------------------------------------

/-- The plans that there are for each command, with what the registers hold then. -/
inductive Planned (regs : Registers w) (dst : ℕ) : Command w → Plan w → Prop
  | new {n s} (hDst : dst < regs.length) :
    Planned regs dst (.new n s) (newPlan regs dst n (blank w n s))
  | ofLimbs {xs s} (hDst : dst < regs.length) :
    Planned regs dst (.ofLimbs xs s) (newPlan regs dst xs.length (holding xs s))
  | ofBytes {bytes s} (hDst : dst < regs.length)
      (hCount : bytes.length + w.bytes < Size.bound) :
    Planned regs dst (.ofBytes bytes s)
      (newPlan regs dst (limbsOfBytes w bytes).length (holding (limbsOfBytes w bytes) s))
  | clone {src a} (hDst : dst < regs.length) (hSrc : regs.lookup src = some a) :
    Planned regs dst (.clone src) (newPlan regs dst a.capacity a)
  | drop : Planned regs dst .drop ⟨0, regs.ending dst, .done, none⟩
  | write {start xs b} (hb : regs.lookup dst = some b) (hRange : start + xs.length ≤ b.capacity) :
    Planned regs dst (.write start xs) (planChange (b.written start xs))
  | setSize {n b} (hb : regs.lookup dst = some b) (hn : n ≤ b.capacity) :
    Planned regs dst (.setSize n) (planChange { b with size := n })
  | trim {b} (hb : regs.lookup dst = some b) : Planned regs dst .trim (planChange b.trimmed)
  | wipe {b} (hb : regs.lookup dst = some b) : Planned regs dst .wipe (planChange b.wipe)
  | reserve {n b} (hb : regs.lookup dst = some b) :
    Planned regs dst (.reserve n) ⟨n, b.growth n, .done, some (b.grown n)⟩
  | copyFrom {src b a} (hb : regs.lookup dst = some b)
      (ha : src ≠ dst ∧ regs.lookup src = some a) :
    Planned regs dst (.copyFrom src) (planCopy b a)
  | setSquare {x b a} (hb : regs.lookup dst = some b) (ha : x ≠ dst ∧ regs.lookup x = some a) :
    Planned regs dst (.setSquare x)
      (planStore b a.isSecure (a.size + a.size) (a.value * a.value) .done)
  | setProduct {x y b a c} (hb : regs.lookup dst = some b)
      (ha : x ≠ dst ∧ regs.lookup x = some a) (hc : y ≠ dst ∧ regs.lookup y = some c) :
    Planned regs dst (.setProduct x y)
      (planStore b (a.isSecure || c.isSecure) (a.size + c.size) (a.value * c.value) .done)
  | setSum {x y b a c} (hb : regs.lookup dst = some b)
      (ha : x ≠ dst ∧ regs.lookup x = some a) (hc : y ≠ dst ∧ regs.lookup y = some c) :
    Planned regs dst (.setSum x y)
      (planStore b (a.isSecure || c.isSecure) (max a.size c.size + 1) (a.value + c.value) .done)
  | setDifference {x y b a c} (hb : regs.lookup dst = some b)
      (ha : x ≠ dst ∧ regs.lookup x = some a) (hc : y ≠ dst ∧ regs.lookup y = some c) :
    Planned regs dst (.setDifference x y)
      (planStore b (a.isSecure || c.isSecure) (max a.size c.size) (a.differenceFrom c)
        (.returned (.limb (a.borrowOf c))))

theorem planNew_eq_ok_iff {count : Checked ℕ} {b : Buffer w} {p : Plan w} :
    planNew regs dst count b = .ok p ↔
      dst < regs.length ∧ ∃ n, count = .ok n ∧ newPlan regs dst n b = p := by
  refine Traced.liftM_bind_eq_ok_iff.trans ⟨?_, ?_⟩
  · rintro ⟨_, hDst, hRest⟩
    obtain ⟨n, hn, hPlan⟩ := Traced.liftM_bind_eq_ok_iff.mp hRest
    exact ⟨require_eq_ok_iff.mp hDst, n, hn, Except.ok.inj hPlan⟩
  · rintro ⟨hDst, n, hn, rfl⟩
    exact ⟨(), require_pos hDst, Traced.liftM_bind_eq_ok_iff.mpr ⟨n, hn, rfl⟩⟩

open Registers Traced in
theorem planned_of_plan {c : Command w} {p : Plan w} (hPlan : plan regs dst c = some (.ok p)) :
    Planned regs dst c p := by
  cases c with
  | new n s =>
    obtain ⟨hDst, m, hm, rfl⟩ := planNew_eq_ok_iff.mp (Option.some.inj hPlan)
    cases hm
    exact .new hDst
  | ofLimbs xs s =>
    obtain ⟨hDst, n, hn, rfl⟩ := planNew_eq_ok_iff.mp (Option.some.inj hPlan)
    cases hn
    exact .ofLimbs hDst
  | ofBytes bytes s =>
    obtain ⟨hDst, n, hn, rfl⟩ := planNew_eq_ok_iff.mp (Option.some.inj hPlan)
    obtain ⟨hCount, rfl⟩ := limbsForBytes_eq_ok_iff.mp hn
    rw [← length_limbsOfBytes]
    exact .ofBytes hDst hCount
  | clone src =>
    obtain ⟨a, ha, hRest⟩ := liftM_bind_eq_ok_iff.mp (Option.some.inj hPlan)
    obtain ⟨hDst, n, hn, rfl⟩ := planNew_eq_ok_iff.mp hRest
    cases hn
    exact .clone hDst (get_eq_ok_iff.mp ha)
  | drop =>
    cases hPlan
    exact .drop
  | write start xs =>
    obtain ⟨b, hb, hRest⟩ := liftM_bind_eq_ok_iff.mp (Option.some.inj hPlan)
    obtain ⟨c, hc, hDone⟩ := liftM_bind_eq_ok_iff.mp hRest
    obtain ⟨hRange, rfl⟩ := write_eq_ok_iff.mp hc
    cases hDone
    exact .write (get_eq_ok_iff.mp hb) hRange
  | setSize n =>
    obtain ⟨b, hb, hRest⟩ := liftM_bind_eq_ok_iff.mp (Option.some.inj hPlan)
    by_cases hn : n ≤ b.capacity
    · rw [if_pos hn] at hRest
      cases hRest
      exact .setSize (get_eq_ok_iff.mp hb) hn
    · rw [if_neg hn] at hRest
      cases hRest
  | trim =>
    obtain ⟨b, hb, hDone⟩ := liftM_bind_eq_ok_iff.mp (Option.some.inj hPlan)
    cases hDone
    exact .trim (get_eq_ok_iff.mp hb)
  | wipe =>
    obtain ⟨b, hb, hDone⟩ := liftM_bind_eq_ok_iff.mp (Option.some.inj hPlan)
    cases hDone
    exact .wipe (get_eq_ok_iff.mp hb)
  | reserve n =>
    obtain ⟨b, hb, hDone⟩ := liftM_bind_eq_ok_iff.mp (Option.some.inj hPlan)
    cases hDone
    exact .reserve (get_eq_ok_iff.mp hb)
  | copyFrom src =>
    obtain ⟨b, hb, hRest⟩ := liftM_bind_eq_ok_iff.mp (Option.some.inj hPlan)
    obtain ⟨a, ha, hDone⟩ := liftM_bind_eq_ok_iff.mp hRest
    cases hDone
    exact .copyFrom (get_eq_ok_iff.mp hb) (operand_eq_ok_iff.mp ha)
  | setSquare x =>
    obtain ⟨b, hb, hRest⟩ := liftM_bind_eq_ok_iff.mp (Option.some.inj hPlan)
    obtain ⟨a, ha, hDone⟩ := liftM_bind_eq_ok_iff.mp hRest
    cases hDone
    exact .setSquare (get_eq_ok_iff.mp hb) (operand_eq_ok_iff.mp ha)
  | setProduct x y =>
    obtain ⟨b, hb, hRest⟩ := liftM_bind_eq_ok_iff.mp (Option.some.inj hPlan)
    obtain ⟨f, hf, hRest⟩ := liftM_bind_eq_ok_iff.mp hRest
    obtain ⟨a, ha, hDone⟩ := liftM_bind_eq_ok_iff.mp hRest
    cases hDone
    exact .setProduct (get_eq_ok_iff.mp hb) (operand_eq_ok_iff.mp ha)
      (operand_eq_ok_iff.mp (factor_eq_ok hf ha))
  | setSum x y =>
    obtain ⟨b, hb, hRest⟩ := liftM_bind_eq_ok_iff.mp (Option.some.inj hPlan)
    obtain ⟨a, ha, hRest⟩ := liftM_bind_eq_ok_iff.mp hRest
    obtain ⟨c, hc, hDone⟩ := liftM_bind_eq_ok_iff.mp hRest
    cases hDone
    exact .setSum (get_eq_ok_iff.mp hb) (operand_eq_ok_iff.mp ha) (operand_eq_ok_iff.mp hc)
  | setDifference x y =>
    obtain ⟨b, hb, hRest⟩ := liftM_bind_eq_ok_iff.mp (Option.some.inj hPlan)
    obtain ⟨a, ha, hRest⟩ := liftM_bind_eq_ok_iff.mp hRest
    obtain ⟨c, hc, hDone⟩ := liftM_bind_eq_ok_iff.mp hRest
    cases hDone
    exact .setDifference (get_eq_ok_iff.mp hb) (operand_eq_ok_iff.mp ha) (operand_eq_ok_iff.mp hc)
  | _ => cases hPlan

theorem factor_eq {x y : ℕ} {a c : Buffer w} (ha : regs.operand dst x = .ok a)
    (hc : regs.operand dst y = .ok c) :
    ∃ f, factor regs dst x y = .ok f ∧ a.secondFactor f = c := by
  unfold factor
  by_cases h : y = x
  · rw [h, ha] at hc
    exact ⟨.same, if_pos h, Except.ok.inj hc⟩
  · rw [if_neg h, hc]
    exact ⟨.other c, rfl, rfl⟩

open Registers Traced in
theorem plan_of_planned {c : Command w} {p : Plan w} (h : Planned regs dst c p) :
    plan regs dst c = some (.ok p) := by
  cases h with
  | new hDst => exact congrArg some (planNew_eq_ok_iff.mpr ⟨hDst, _, rfl, rfl⟩)
  | ofLimbs hDst => exact congrArg some (planNew_eq_ok_iff.mpr ⟨hDst, _, rfl, rfl⟩)
  | ofBytes hDst hCount =>
    have hLimbs := limbsForBytes_eq_ok_iff.mpr ⟨hCount, (length_limbsOfBytes _).symm⟩
    exact congrArg some (planNew_eq_ok_iff.mpr ⟨hDst, _, hLimbs, rfl⟩)
  | clone hDst hSrc =>
    rw [plan, liftM_bind_of_ok (get_eq_ok_iff.mpr hSrc)]
    exact congrArg some (planNew_eq_ok_iff.mpr ⟨hDst, _, rfl, rfl⟩)
  | drop => rfl
  | write hb hRange =>
    rw [plan, liftM_bind_of_ok (get_eq_ok_iff.mpr hb),
      liftM_bind_of_ok (write_eq_ok_iff.mpr ⟨hRange, rfl⟩)]
    rfl
  | setSize hb hn =>
    rw [plan, liftM_bind_of_ok (get_eq_ok_iff.mpr hb), if_pos hn]
    rfl
  | trim hb | wipe hb | reserve hb =>
    rw [plan, liftM_bind_of_ok (get_eq_ok_iff.mpr hb)]
    rfl
  | copyFrom hb ha | setSquare hb ha =>
    rw [plan, liftM_bind_of_ok (get_eq_ok_iff.mpr hb), liftM_bind_of_ok (operand_eq_ok_iff.mpr ha)]
    rfl
  | setProduct hb ha hc =>
    have hFirst := operand_eq_ok_iff.mpr ha
    obtain ⟨f, hf, hSecond⟩ := factor_eq hFirst (operand_eq_ok_iff.mpr hc)
    rw [plan, liftM_bind_of_ok (get_eq_ok_iff.mpr hb), liftM_bind_of_ok hf,
      liftM_bind_of_ok hFirst, hSecond]
    rfl
  | setSum hb ha hc | setDifference hb ha hc =>
    rw [plan, liftM_bind_of_ok (get_eq_ok_iff.mpr hb), liftM_bind_of_ok (operand_eq_ok_iff.mpr ha),
      liftM_bind_of_ok (operand_eq_ok_iff.mpr hc)]
    rfl

open Traced in
/-- A command that cannot be planned fails a check, unless it asks for more slots than there are. -/
theorem plan_error {c : Command w} {e : Failure} (hPlan : plan regs dst c = some (.error e)) :
    (∃ fault, e = .fault fault) ∨ ∃ n b, c = .setSize n ∧ regs.lookup dst = some b ∧
      b.capacity < n ∧ e = .storage (.insufficientCapacity n b.capacity) := by
  have hNew : ∀ {count : Checked ℕ} {b : Buffer w}, planNew regs dst count b = .error e →
      ∃ fault, e = .fault fault := fun h =>
    fault_of_liftM_bind h fun _ h => fault_of_liftM_bind h fun _ => nofun
  cases c with
  | new | ofLimbs | ofBytes => exact .inl (hNew (Option.some.inj hPlan))
  | clone => exact .inl (fault_of_liftM_bind (Option.some.inj hPlan) fun _ => hNew)
  | setSize n =>
    cases hb : regs.get dst with
    | error fault =>
      rw [plan, hb] at hPlan
      exact .inl ⟨fault, (Except.error.inj (Option.some.inj hPlan)).symm⟩
    | ok b =>
      rw [plan, liftM_bind_of_ok hb] at hPlan
      by_cases h : n ≤ b.capacity
      · rw [if_pos h] at hPlan
        cases hPlan
      · rw [if_neg h] at hPlan
        cases hPlan
        exact .inr ⟨n, b, rfl, Registers.get_eq_ok_iff.mp hb, not_le.mp h, rfl⟩
  | trim | wipe | reserve =>
    exact .inl (fault_of_liftM_bind (Option.some.inj hPlan) fun _ => nofun)
  | write | copyFrom | setSquare =>
    exact .inl (fault_of_liftM_bind (Option.some.inj hPlan) fun _ h =>
      fault_of_liftM_bind h fun _ => nofun)
  | setProduct | setSum | setDifference =>
    exact .inl (fault_of_liftM_bind (Option.some.inj hPlan) fun _ h =>
      fault_of_liftM_bind h fun _ h => fault_of_liftM_bind h fun _ => nofun)
  | _ => cases hPlan

-- ---------------------------------------------------------------------------
-- Plans keep registers well-formed
-- ---------------------------------------------------------------------------

theorem Planned.wellFormed (hRegs : regs.WellFormed) {c : Command w} {p : Plan w} {b : Buffer w}
    (h : Planned regs dst c p) (hRoom : Allocatable w p.limbs) (hState : p.state = some b) :
    b.WellFormed := by
  cases h <;> cases hState
  case new => exact .blank hRoom _
  case ofLimbs => exact .holding hRoom _
  case ofBytes => exact .holding hRoom _
  case clone hSrc => exact hRegs _ _ hSrc
  case write hb hRange => exact (hRegs _ _ hb).written hRange
  case setSize hb hn => exact (hRegs _ _ hb).setSize hn
  case trim hb => exact (hRegs _ _ hb).trimmed
  case wipe hb => exact (hRegs _ _ hb).wipe
  case reserve hb => exact (hRegs _ _ hb).grown hRoom
  case copyFrom hb ha =>
    have hWell := hRegs _ _ hb
    exact (hWell.roomy hRoom _).copied (hRegs _ _ ha.2) (room_copied hWell _ _).2
  case setSquare hb _ => exact (hRegs _ _ hb).stored hRoom _ _
  case setProduct hb _ _ => exact (hRegs _ _ hb).stored hRoom _ _
  case setSum hb _ _ => exact (hRegs _ _ hb).stored hRoom _ _
  case setDifference hb _ _ => exact (hRegs _ _ hb).stored hRoom _ _

end LimbArith.Session
