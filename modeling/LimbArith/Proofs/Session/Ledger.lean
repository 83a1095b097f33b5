import LimbArith.Proofs.Primitive.Implementation
import LimbArith.Proofs.Session.History

/-!
# LimbArith — the log accounts for every buffer

The events of a run are a ledger of its secure buffers. Each of them came to be by
an allocation or a promotion, and ends with a release, so what is allocated and
promoted but not released is what lives. The ledger is kept over any interleaving
of commands, failing ones included, and over all registers at once.

Main results:

* `Balanced` — the ledger of a log, and what keeps it.
* `close_releases` — the end of a session settles it.
* `run_ledger` — the ledger and the accounts of all buffers, in every run.
-/

namespace LimbArith.Session

open Buffer

variable {w : Width} {alu : Alu w} {regs : Registers w} {dst : ℕ}

-- ---------------------------------------------------------------------------
-- What a log says
-- ---------------------------------------------------------------------------

/-- The secure buffers that were made. -/
def allocatedSecure (log : List Event) : ℕ :=
  log.countP fun e => match e with | .allocated _ .secure => true | _ => false

/-- The buffers that became secure. -/
def promotions (log : List Event) : ℕ :=
  log.countP fun e => match e with | .promoted _ => true | _ => false

/-- The secure buffers that ended. -/
def releases (log : List Event) : ℕ :=
  log.countP fun e => match e with | .released => true | _ => false

/-- The number of registers that hold a secure buffer. -/
def secureCount (regs : Registers w) : ℕ := regs.countP fun o => o.any isSecure

/-- All secure buffers that came to be have ended or are there. -/
def Balanced (regs : Registers w) (log : List Event) : Prop :=
  secureCount regs + releases log = allocatedSecure log + promotions log

theorem allocatedSecure_append (log more : List Event) :
    allocatedSecure (log ++ more) = allocatedSecure log + allocatedSecure more :=
  List.countP_append

theorem promotions_append (log more : List Event) :
    promotions (log ++ more) = promotions log + promotions more := List.countP_append

theorem releases_append (log more : List Event) :
    releases (log ++ more) = releases log + releases more := List.countP_append

-- ---------------------------------------------------------------------------
-- One register
-- ---------------------------------------------------------------------------

/-- One for a secure buffer, zero for an ordinary one or none. -/
def weight (o : Option (Buffer w)) : ℕ := if o.any isSecure then 1 else 0

/-- A change of one register changes the count by its weight. There is nothing to drop from a
register that is not there. -/
theorem secureCount_set {o : Option (Buffer w)} (hDst : dst < regs.length ∨ o = none) :
    secureCount (regs.set dst o) + weight (regs.lookup dst) = secureCount regs + weight o := by
  by_cases hThere : dst < regs.length
  · have hLookup : regs.lookup dst = regs[dst] := by
      rw [Registers.lookup, List.getElem?_eq_getElem hThere]
      rfl
    have hCounted : weight regs[dst] ≤ secureCount regs := by
      unfold weight
      split
      · next h => exact List.countP_pos_iff.mpr ⟨_, List.getElem_mem hThere, h⟩
      · exact Nat.zero_le _
    have hSet : secureCount (regs.set dst o) = secureCount regs - weight regs[dst] + weight o :=
      List.countP_set ..
    rw [hLookup, hSet]
    omega
  · have hLe := not_lt.mp hThere
    rw [List.set_eq_of_length_le hLe, Registers.lookup_of_le hLe, hDst.resolve_left hThere]

/-- Events that account for a change of one register. -/
def Settles (before after : Option (Buffer w)) (events : List Event) : Prop :=
  weight after + releases events = weight before + allocatedSecure events + promotions events

/-- The end of a buffer is a release if it is secure, and nothing else. -/
theorem settles_ending (regs : Registers w) (dst : ℕ) :
    Settles (regs.lookup dst) none (regs.ending dst) := by
  unfold Registers.ending
  cases regs.lookup dst with
  | none => rfl
  | some b =>
    obtain ⟨slots, size, sensitivity⟩ := b
    cases sensitivity <;> rfl

theorem settles_makes (regs : Registers w) (dst : ℕ) (b : Buffer w) :
    Settles (regs.lookup dst) (some b)
      (.allocated b.capacity b.sensitivity :: regs.ending dst) := by
  have hEnding : 0 + releases (regs.ending dst) = weight (regs.lookup dst)
      + allocatedSecure (regs.ending dst) + promotions (regs.ending dst) := settles_ending regs dst
  have hAllocated : allocatedSecure [.allocated b.capacity b.sensitivity] = weight (some b) := by
    obtain ⟨slots, size, sensitivity⟩ := b
    cases sensitivity <;> rfl
  unfold Settles
  rw [← List.singleton_append, releases_append, allocatedSecure_append, promotions_append,
    hAllocated, show releases [.allocated b.capacity b.sensitivity] = 0 from rfl,
    show promotions [.allocated b.capacity b.sensitivity] = 0 from rfl]
  omega

/-- Growth makes nothing secure. -/
theorem settles_growth (a : Buffer w) (n : ℕ) : Settles (some a) (some (a.grown n)) (a.growth n) := by
  have hWeight : weight (some (a.grown n)) = weight (some a) := by
    unfold weight
    rw [Option.any_some, Option.any_some, isSecure, sensitivity_grown]
    rfl
  unfold Settles
  rw [hWeight]
  unfold growth
  split <;> rfl

/-- A promotion makes an ordinary buffer secure, and leaves a secure one alone. -/
theorem settles_promotion (a : Buffer w) (secure : Bool) :
    Settles (some a) (some (a.promoted secure)) (a.promotion secure) := by
  obtain ⟨slots, size, sensitivity⟩ := a
  cases secure <;> cases sensitivity <;> rfl

theorem Settles.trans {x y z : Option (Buffer w)} {events more : List Event}
    (h : Settles x y events) (hMore : Settles y z more) : Settles x z (events ++ more) := by
  unfold Settles at *
  rw [releases_append, allocatedSecure_append, promotions_append]
  omega

/-- A buffer that makes room for something secure becomes secure once. -/
theorem settles_fills {a b : Buffer w} {n : ℕ} {secure : Bool}
    (h : b.isSecure = (a.isSecure || secure)) :
    Settles (some a) (some b) (a.roomEvents n secure) := by
  have hRoomy : weight (some (a.roomy n secure)) = weight (some b) := by
    unfold weight
    rw [Option.any_some, Option.any_some, isSecure_roomy, h]
  have hRoom := (settles_growth a n).trans (settles_promotion (a.grown n) secure)
  unfold Settles at *
  rw [← hRoomy]
  exact hRoom

-- ---------------------------------------------------------------------------
-- All registers
-- ---------------------------------------------------------------------------

theorem Balanced.set {log events : List Event} (h : Balanced regs log) {o : Option (Buffer w)}
    (hDst : dst < regs.length ∨ o = none) (hSettles : Settles (regs.lookup dst) o events) :
    Balanced (regs.set dst o) (log ++ events) := by
  have hCount := secureCount_set hDst
  unfold Balanced Settles at *
  rw [releases_append, allocatedSecure_append, promotions_append]
  omega

/-- A plan is about a register that is there, or leaves nothing in it. -/
theorem Kind.there {c : Command w} {p : Plan w} (h : Kind regs dst c p) :
    dst < regs.length ∨ p.state = none := by
  cases h with
  | ends _ _ hState => exact .inr hState
  | makes _ hDst => exact .inl hDst
  | fills _ ha => exact .inl (Registers.lt_of_lookup ha)

/-- What a plan reports accounts for its change. -/
theorem Kind.settles {c : Command w} {p : Plan w} (h : Kind regs dst c p) :
    Settles (regs.lookup dst) p.state p.events := by
  cases h with
  | ends _ hEvents hState =>
    rw [hEvents, hState]
    exact settles_ending regs dst
  | makes _ _ hEvents hState _ =>
    rw [hEvents, hState]
    exact settles_makes regs dst _
  | fills _ ha hEvents hState _ hClass _ =>
    rw [hEvents, hState, ha]
    exact settles_fills hClass

theorem Execution.balanced {c : Command w} {t : Traced (Reply w)} {next : Registers w}
    (h : Execution regs dst c t next) (hRegs : regs.WellFormed) {log : List Event}
    (hLog : Balanced regs log) : Balanced next (log ++ t.events) := by
  cases h with
  | planned hPlan _ =>
    have hKind := hPlan.kind hRegs
    exact hLog.set hKind.there hKind.settles
  | refused =>
    unfold Balanced at *
    rw [releases_append, allocatedSecure_append, promotions_append]
    exact hLog
  | exceeded | faulted | asked =>
    rw [List.append_nil]
    exact hLog
  | applied hb _ =>
    refine hLog.set (.inl (Registers.lt_of_lookup hb)) ?_
    rw [hb]
    rfl

theorem run_balanced (hAlu : alu.Lawful) (steps : List (Step w)) (hRegs : regs.WellFormed)
    {log : List Event} (hLog : Balanced regs log) :
    Balanced (run alu steps regs).2
      (log ++ (run alu steps regs).1.flatMap fun o => o.events) := by
  induction steps generalizing regs log with
  | nil =>
    rw [run, List.flatMap_nil, List.append_nil]
    exact hLog
  | cons s steps ih =>
    have hStep : Balanced (step alu regs s).2 (log ++ (step alu regs s).1.events) :=
      (execution hAlu hRegs s.dst s.command).balanced hRegs hLog
    have hRest := ih (step_wellFormed hAlu hRegs s) hStep
    rw [List.append_assoc] at hRest
    exact hRest

/-- Closing a session releases exactly the secure buffers that are left. -/
theorem close_releases (regs : Registers w) : releases (close regs) = secureCount regs := by
  induction regs with
  | nil => rfl
  | cons o regs ih =>
    have hRelease : releases ((o.map release).getD []) = weight o := by
      cases o with
      | none => rfl
      | some b =>
        obtain ⟨slots, size, sensitivity⟩ := b
        cases sensitivity <;> rfl
    rw [close, List.flatMap_cons, releases_append, hRelease, ← close, ih, Nat.add_comm]
    exact List.countP_cons.symm

/-- **The log is a faithful account.** After every run from empty registers, the secure buffers are
those that were allocated or promoted and not released, so closing settles the ledger; and every
buffer has a life in the history that accounts for its capacity, by the growth events since it was
made, and for its being secure, by what it was made from and computed from. -/
theorem run_ledger (impl : Implementation w) (n : ℕ) (steps : List (Step w)) :
    let outcomes := (run impl.alu steps (Registers.empty w n)).1
    let regs := (run impl.alu steps (Registers.empty w n)).2
    let log := outcomes.flatMap fun o => o.events
    let entries := history impl.alu steps (Registers.empty w n)
    secureCount regs + releases log = allocatedSecure log + promotions log ∧
    releases (log ++ close regs) = allocatedSecure log + promotions log ∧
    entries.map Entry.outcome = outcomes ∧
    ∀ r b, regs.lookup r = some b → ∃ made since, Account entries r b made since := by
  intro outcomes regs log entries
  have hEmpty : Balanced (Registers.empty w n) [] := by
    unfold Balanced secureCount Registers.empty
    rw [List.countP_replicate]
    rfl
  have hBalanced : Balanced regs log :=
    run_balanced impl.lawful steps (Registers.wellFormed_empty n) hEmpty
  have hClosed : releases (log ++ close regs) = allocatedSecure log + promotions log := by
    rw [releases_append, close_releases, Nat.add_comm]
    exact hBalanced
  exact ⟨hBalanced, hClosed, map_outcome_history _ _ _,
    fun _ _ => run_account impl.lawful n steps⟩

/-- A session in which a buffer grows twice and becomes secure, and a secure one is replaced. -/
def turnover : List (Step .w32) :=
  [⟨0, .new 1 .ordinary⟩, ⟨1, .ofLimbs [7, 8] .secure⟩, ⟨0, .copyFrom 1⟩, ⟨1, .new 3 .ordinary⟩,
    ⟨0, .reserve 5⟩]

theorem run_ledger_turnover :
    (run (Implementation.portable .w32).alu turnover (Registers.empty .w32 2)).1.flatMap
        (fun o => o.events)
      = [.allocated 1 .ordinary, .allocated 2 .secure, .grew .ordinary 1 2, .promoted 2,
          .allocated 3 .ordinary, .released, .grew .secure 2 5] ∧
      secureCount
        (run (Implementation.portable .w32).alu turnover (Registers.empty .w32 2)).2 + 1 = 1 + 1 ∧
      ∃ made since, Account
        (history (Implementation.portable .w32).alu turnover (Registers.empty .w32 2))
        0 ⟨[7, 8, 0, 0, 0], 2, .secure⟩ made since := by
  obtain ⟨hBalance, -, -, hAccounts⟩ := run_ledger (.portable .w32) 2 turnover
  exact ⟨rfl, hBalance, hAccounts 0 _ rfl⟩

end LimbArith.Session
