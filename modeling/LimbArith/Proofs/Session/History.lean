import LimbArith.Proofs.Session.Run

/-!
# LimbArith — the lives of buffers

A buffer lives in its register from the step that makes it to the step that makes
another there or drops it. What a run has done in between decides what it is now:
its capacity is what the growth events say, and it is secure if it was made so or
has been the destination of something secure.

Every plan that keeps a buffer makes room in it first, if only for nothing, so all
of them report and change it alike; this is what one step does to the account of a
buffer, and runs follow by induction.

Main results:

* `Planned.kind` — a plan ends a buffer, makes one or makes room in one.
* `Life`, `Account` — what a run says about a buffer.
* `run_account` — the account of every buffer of every run.
-/

namespace LimbArith.Session

open Buffer

variable {w : Width} {alu : Alu w} {regs : Registers w} {dst r : ℕ}

-- ---------------------------------------------------------------------------
-- Commands
-- ---------------------------------------------------------------------------

/-- The commands that put a new buffer into their register. -/
def Command.Making : Command w → Prop
  | .new _ _ | .ofLimbs _ _ | .ofBytes _ _ | .clone _ => True
  | _ => False

/-- The register holds a secure buffer. -/
def Registers.Secure (regs : Registers w) (r : ℕ) : Prop :=
  ∃ b, regs.lookup r = some b ∧ b.isSecure = true

/-- A command that makes the buffer in its register secure: it makes it so, or takes a secure
operand. -/
def Command.Securing (regs : Registers w) : Command w → Prop
  | .new _ s | .ofLimbs _ s | .ofBytes _ s => s = .secure
  | .clone src | .copyFrom src => regs.Secure src
  | .setSquare x => regs.Secure x
  | .setProduct x y | .setSum x y | .setDifference x y => regs.Secure x ∨ regs.Secure y
  | _ => False

theorem Registers.secure_iff {a : Buffer w} (ha : regs.lookup r = some a) :
    regs.Secure r ↔ a.isSecure = true := by
  unfold Registers.Secure
  rw [ha]
  exact ⟨fun ⟨b, hb, hSecure⟩ => Option.some.inj hb ▸ hSecure, fun h => ⟨a, rfl, h⟩⟩

/-- A result of two operands is secure if one of them is. -/
theorem secure_or_iff {x y : ℕ} {a c : Buffer w} (ha : regs.lookup x = some a)
    (hc : regs.lookup y = some c) :
    regs.Secure x ∨ regs.Secure y ↔ (a.isSecure || c.isSecure) = true := by
  rw [Registers.secure_iff ha, Registers.secure_iff hc, Bool.or_eq_true]

-- ---------------------------------------------------------------------------
-- The kinds of plans
-- ---------------------------------------------------------------------------

/-- The kinds of plans. -/
inductive Kind (regs : Registers w) (dst : ℕ) (c : Command w) (p : Plan w) : Prop
  /-- It ends what is in its register. -/
  | ends (hCommand : c = .drop) (hEvents : p.events = regs.ending dst) (hState : p.state = none)
  /-- It puts a new buffer into its register. -/
  | makes {b} (hCommand : c.Making) (hDst : dst < regs.length)
    (hEvents : p.events = .allocated b.capacity b.sensitivity :: regs.ending dst)
    (hState : p.state = some b) (hSecure : b.isSecure = true ↔ c.Securing regs)
  /-- It makes room in the buffer in its register and changes no more than the number. -/
  | fills {a b n secure} (hCommand : ¬ c.Making ∧ c ≠ .drop) (ha : regs.lookup dst = some a)
    (hEvents : p.events = a.roomEvents n secure) (hState : p.state = some b)
    (hCapacity : b.capacity = max a.capacity n) (hClass : b.isSecure = (a.isSecure || secure))
    (hSecure : secure = true ↔ c.Securing regs)

theorem isSecure_eq_true {b : Buffer w} : b.isSecure = true ↔ b.sensitivity = .secure := by
  unfold isSecure
  exact beq_iff_eq

/-- Nothing is reported about room for nothing. -/
theorem roomEvents_zero (b : Buffer w) : b.roomEvents 0 false = [] := by
  unfold roomEvents growth
  rw [if_pos (Nat.zero_le _)]
  rfl

/-- A change without more memory makes room for nothing. -/
theorem Kind.change {c : Command w} {a b : Buffer w} (hCommand : ¬ c.Making ∧ c ≠ .drop)
    (ha : regs.lookup dst = some a) (hCapacity : b.capacity = a.capacity)
    (hClass : b.sensitivity = a.sensitivity) (hSecure : ¬ c.Securing regs) :
    Kind regs dst c (planChange b) := by
  refine .fills hCommand ha (roomEvents_zero a).symm rfl ?_ ?_ ⟨nofun, fun h => absurd h hSecure⟩
  · rw [hCapacity, max_eq_left (Nat.zero_le _)]
  · rw [isSecure, hClass, Bool.or_false]
    rfl

theorem Planned.kind (hRegs : regs.WellFormed) {c : Command w} {p : Plan w}
    (h : Planned regs dst c p) : Kind regs dst c p := by
  cases h with
  | new hDst =>
    exact .makes trivial hDst (by rw [capacity_blank]; rfl) rfl isSecure_eq_true
  | ofLimbs hDst =>
    exact .makes trivial hDst (by rw [capacity_holding]; rfl) rfl isSecure_eq_true
  | ofBytes hDst _ =>
    exact .makes trivial hDst (by rw [capacity_holding]; rfl) rfl isSecure_eq_true
  | clone hDst ha => exact .makes trivial hDst rfl rfl (Registers.secure_iff ha).symm
  | drop => exact .ends rfl rfl rfl
  | write hb hRange => exact .change ⟨id, nofun⟩ hb (capacity_written hRange) rfl id
  | setSize hb _ => exact .change ⟨id, nofun⟩ hb rfl rfl id
  | trim hb => exact .change ⟨id, nofun⟩ hb rfl rfl id
  | wipe hb => exact .change ⟨id, nofun⟩ hb List.length_replicate rfl id
  | @reserve n b hb =>
    have hEvents : b.growth n = b.roomEvents n false := (List.append_nil _).symm
    refine .fills ⟨id, nofun⟩ hb hEvents rfl (capacity_grown (hRegs _ _ hb) n) ?_
      ⟨nofun, False.elim⟩
    rw [isSecure, sensitivity_grown, Bool.or_false]
    rfl
  | copyFrom hb ha =>
    exact .fills ⟨id, nofun⟩ hb rfl rfl (capacity_copied_roomy (hRegs _ _ hb) (hRegs _ _ ha.2) _)
      (isSecure_roomy ..) (Registers.secure_iff ha.2).symm
  | setSquare hb ha =>
    exact .fills ⟨id, nofun⟩ hb rfl rfl (capacity_stored (hRegs _ _ hb) ..) (isSecure_stored ..)
      (Registers.secure_iff ha.2).symm
  | setProduct hb ha hc =>
    exact .fills ⟨id, nofun⟩ hb rfl rfl (capacity_stored (hRegs _ _ hb) ..) (isSecure_stored ..)
      (secure_or_iff ha.2 hc.2).symm
  | setSum hb ha hc =>
    exact .fills ⟨id, nofun⟩ hb rfl rfl (capacity_stored (hRegs _ _ hb) ..) (isSecure_stored ..)
      (secure_or_iff ha.2 hc.2).symm
  | setDifference hb ha hc =>
    exact .fills ⟨id, nofun⟩ hb rfl rfl (capacity_stored (hRegs _ _ hb) ..) (isSecure_stored ..)
      (secure_or_iff ha.2 hc.2).symm

-- ---------------------------------------------------------------------------
-- Growth
-- ---------------------------------------------------------------------------

/-- The growth events among those of a buffer lead from one capacity to another, each from the
capacity that the last one left to a larger one. -/
inductive Growth : ℕ → List Event → ℕ → Prop
  | done {m} : Growth m [] m
  | grew {m k n s events} (h : m < k) (hRest : Growth k events n) :
    Growth m (.grew s m k :: events) n
  | other {m n e events} (h : ∀ s i j, e ≠ .grew s i j) (hRest : Growth m events n) :
    Growth m (e :: events) n

/-- The capacity after growth events: what the last of them says, if there is one. -/
def latestCapacity (m : ℕ) (events : List Event) : ℕ :=
  events.foldl (fun c e => match e with | .grew _ _ n => n | _ => c) m

theorem Growth.latest {m n : ℕ} {events : List Event} (h : Growth m events n) :
    latestCapacity m events = n := by
  induction h with
  | done => rfl
  | grew _ _ ih => exact ih
  | @other m n e events hOther _ ih =>
    have hSame : latestCapacity m (e :: events) = latestCapacity m events := by
      cases e <;> first | rfl | exact absurd rfl (hOther _ _ _)
    rw [hSame, ih]

theorem Growth.append {m k n : ℕ} {events more : List Event} (h : Growth m events k)
    (hMore : Growth k more n) : Growth m (events ++ more) n := by
  induction h with
  | done => exact hMore
  | grew h _ ih => exact .grew h (ih hMore)
  | other h _ ih => exact .other h (ih hMore)

theorem growth_roomEvents (b : Buffer w) (n : ℕ) (secure : Bool) :
    Growth b.capacity (b.roomEvents n secure) (max b.capacity n) := by
  have hPromotion : ∀ m (c : Buffer w), Growth m (c.promotion secure) m := by
    intro m c
    unfold promotion
    split
    · exact .other nofun .done
    · exact .done
  unfold roomEvents growth
  by_cases h : n ≤ b.capacity
  · rw [if_pos h, max_eq_left h]
    exact hPromotion _ _
  · rw [if_neg h, max_eq_right (le_of_not_ge h)]
    exact .grew (not_le.mp h) (hPromotion _ _)

/-- The end of a buffer is no growth. -/
theorem growth_ending (regs : Registers w) (r m : ℕ) : Growth m (regs.ending r) m := by
  unfold Registers.ending
  cases regs.lookup r with
  | none => exact .done
  | some b =>
    show Growth m b.release m
    unfold release
    split
    · exact .other nofun .done
    · exact .done

-- ---------------------------------------------------------------------------
-- Histories
-- ---------------------------------------------------------------------------

/-- A step of a run, with the registers before it and its outcome. -/
structure Entry (w : Width) where
  before : Registers w
  step : Step w
  outcome : Outcome w

/-- The steps of a run, each with what is known of it. -/
def history (alu : Alu w) : List (Step w) → Registers w → List (Entry w)
  | [], _ => []
  | s :: steps, regs =>
    let (outcome, next) := step alu regs s
    ⟨regs, s, outcome⟩ :: history alu steps next

/-- The step is about the register and succeeds. -/
def Entry.Succeeds (e : Entry w) (r : ℕ) : Prop :=
  e.step.dst = r ∧ e.outcome.reply.isOk = true

/-- The events of the steps about a register. -/
def eventsAbout (r : ℕ) (entries : List (Entry w)) : List Event :=
  entries.flatMap fun e => if e.step.dst = r then e.outcome.events else []

/-- The life so far of the buffer in a register: it is made, and not replaced or dropped since. -/
structure Life (entries : List (Entry w)) (r : ℕ) (made : Entry w) (since : List (Entry w)) :
    Prop where
  entries_eq : ∃ earlier, entries = earlier ++ made :: since
  made : made.Succeeds r ∧ made.step.command.Making
  kept : ∀ e ∈ since, e.Succeeds r → ¬ e.step.command.Making ∧ e.step.command ≠ .drop

/-- What a history says about the buffer `b` in a register: its life begins with its allocation, and
its capacity is what it was made with and has grown to since; it is secure exactly if it was made so
or has had a secure operand; and it was secure ever since it was first. -/
structure Account (entries : List (Entry w)) (r : ℕ) (b : Buffer w) (made : Entry w)
    (since : List (Entry w)) : Prop where
  life : Life entries r made since
  capacity : ∃ n s events, eventsAbout r (made :: since) = .allocated n s :: events ∧
    b.capacity = latestCapacity n events ∧ Growth n events b.capacity
  secure_iff : b.isSecure = true ↔
    ∃ e ∈ made :: since, e.Succeeds r ∧ e.step.command.Securing e.before
  stays_secure : ∀ e ∈ since, e.before.Secure r → b.isSecure = true

theorem map_outcome_history (alu : Alu w) (steps : List (Step w)) (regs : Registers w) :
    (history alu steps regs).map Entry.outcome = (run alu steps regs).1 := by
  induction steps generalizing regs with
  | nil => rfl
  | cons s steps ih => exact congrArg (_ :: ·) (ih (step alu regs s).2)

theorem run_concat (alu : Alu w) (steps : List (Step w)) (s : Step w) (regs : Registers w) :
    (run alu (steps ++ [s]) regs).2 = (step alu (run alu steps regs).2 s).2 := by
  induction steps generalizing regs with
  | nil => rfl
  | cons t steps ih => exact ih (step alu regs t).2

theorem history_concat (alu : Alu w) (steps : List (Step w)) (s : Step w) (regs : Registers w) :
    history alu (steps ++ [s]) regs = history alu steps regs ++
      [⟨(run alu steps regs).2, s, (step alu (run alu steps regs).2 s).1⟩] := by
  induction steps generalizing regs with
  | nil => rfl
  | cons t steps ih => exact congrArg (_ :: ·) (ih (step alu regs t).2)

theorem eventsAbout_concat (r : ℕ) (entries : List (Entry w)) (e : Entry w) :
    eventsAbout r (entries ++ [e])
      = eventsAbout r entries ++ if e.step.dst = r then e.outcome.events else [] := by
  unfold eventsAbout
  rw [List.flatMap_append, List.flatMap_singleton]

-- ---------------------------------------------------------------------------
-- One step
-- ---------------------------------------------------------------------------

variable {entries since : List (Entry w)} {made e : Entry w} {b b' : Buffer w}

/-- A step that keeps the buffer adds to its account. -/
theorem Account.keep (h : Account entries r b made since) (hBefore : e.before.lookup r = some b)
    (hKept : e.Succeeds r → ¬ e.step.command.Making ∧ e.step.command ≠ .drop)
    (hGrowth : e.step.dst = r → Growth b.capacity e.outcome.events b'.capacity)
    (hCapacity : e.step.dst ≠ r → b'.capacity = b.capacity)
    (hSecure : b'.isSecure = true ↔
      b.isSecure = true ∨ e.Succeeds r ∧ e.step.command.Securing e.before) :
    Account (entries ++ [e]) r b' made (since ++ [e]) where
  life := by
    obtain ⟨earlier, hEntries⟩ := h.life.entries_eq
    refine ⟨⟨earlier, by rw [hEntries, List.append_assoc, List.cons_append]⟩, h.life.made, ?_⟩
    intro f hf
    rcases List.mem_append.mp hf with hOld | hNew
    · exact h.life.kept f hOld
    · rw [List.mem_singleton.mp hNew]
      exact hKept
  capacity := by
    obtain ⟨n, s, events, hEvents, -, hSince⟩ := h.capacity
    have hGrown : Growth n (events ++ if e.step.dst = r then e.outcome.events else [])
        b'.capacity := by
      by_cases hDst : e.step.dst = r
      · rw [if_pos hDst]
        exact hSince.append (hGrowth hDst)
      · rw [if_neg hDst, List.append_nil, hCapacity hDst]
        exact hSince
    refine ⟨n, s, _, ?_, hGrown.latest.symm, hGrown⟩
    rw [← List.cons_append, eventsAbout_concat, hEvents, List.cons_append]
  secure_iff := by
    rw [hSecure, h.secure_iff, ← List.cons_append]
    constructor
    · rintro (⟨f, hf, hSecuring⟩ | hSecuring)
      · exact ⟨f, List.mem_append_left _ hf, hSecuring⟩
      · exact ⟨e, List.mem_append_right _ (List.mem_singleton_self e), hSecuring⟩
    · rintro ⟨f, hf, hSecuring⟩
      rcases List.mem_append.mp hf with hOld | hNew
      · exact .inl ⟨f, hOld, hSecuring⟩
      · rw [List.mem_singleton.mp hNew] at hSecuring
        exact .inr hSecuring
  stays_secure := by
    intro f hf hWas
    rcases List.mem_append.mp hf with hOld | hNew
    · exact hSecure.mpr (.inl (h.stays_secure f hOld hWas))
    · rw [List.mem_singleton.mp hNew, Registers.secure_iff hBefore] at hWas
      exact hSecure.mpr (.inl hWas)

/-- A step that does nothing to the buffer adds nothing to its account. -/
theorem Account.idle (h : Account entries r b made since) (hBefore : e.before.lookup r = some b)
    (hIdle : e.Succeeds r → ¬ e.step.command.Making ∧ e.step.command ≠ .drop ∧
      ¬ e.step.command.Securing e.before)
    (hCapacity : b'.capacity = b.capacity) (hClass : b'.sensitivity = b.sensitivity)
    (hGrowth : e.step.dst = r → Growth b.capacity e.outcome.events b.capacity) :
    Account (entries ++ [e]) r b' made (since ++ [e]) := by
  refine h.keep hBefore (fun hs => ⟨(hIdle hs).1, (hIdle hs).2.1⟩) (hCapacity ▸ hGrowth)
    (fun _ => hCapacity) ?_
  have hSame : b'.isSecure = b.isSecure := by
    rw [isSecure, hClass]
    rfl
  rw [hSame]
  exact ⟨.inl, fun h => h.elim id fun hs => absurd hs.2 (hIdle hs.1).2.2⟩

/-- The account of a new buffer. -/
theorem Account.open (hMade : e.Succeeds r ∧ e.step.command.Making)
    (hEvents : e.outcome.events = .allocated b.capacity b.sensitivity :: e.before.ending r)
    (hSecure : b.isSecure = true ↔ e.step.command.Securing e.before) :
    Account (entries ++ [e]) r b e [] where
  life := ⟨⟨entries, rfl⟩, hMade, fun _ hf => absurd hf List.not_mem_nil⟩
  capacity := by
    have hEnding := growth_ending e.before r b.capacity
    refine ⟨_, b.sensitivity, _, ?_, hEnding.latest.symm, hEnding⟩
    rw [eventsAbout, List.flatMap_singleton, if_pos hMade.1.1, hEvents]
  secure_iff := by
    rw [hSecure]
    constructor
    · intro h
      exact ⟨e, List.mem_singleton_self e, hMade.1, h⟩
    · rintro ⟨f, hf, -, hSecuring⟩
      rwa [List.mem_singleton.mp hf] at hSecuring
  stays_secure := fun _ hf => absurd hf List.not_mem_nil

/-- Questions and array operations neither make a buffer nor end it nor make it secure. -/
theorem idle_of_unplanned {c : Command w} (hPlan : plan regs dst c = none) :
    ¬ c.Making ∧ c ≠ .drop ∧ ¬ c.Securing regs := by
  cases c <;> cases hPlan
  all_goals exact ⟨id, by rintro ⟨⟩, id⟩

/-- The account of the buffer in the register that a step is about. -/
theorem Execution.account {c : Command w} {t : Traced (Reply w)} {next : Registers w}
    (h : Execution regs dst c t next) (hRegs : regs.WellFormed) {o : Option (Buffer w)}
    (hAccounts : ∀ b, regs.lookup dst = some b → ∃ made since, Account entries dst b made since)
    (hNext : next.lookup dst = some b') :
    ∃ made since, Account (entries ++ [⟨regs, ⟨dst, c⟩, ⟨t.events, t.outcome, o⟩⟩]) dst b'
      made since := by
  cases h with
  | planned hPlan _ =>
    cases hPlan.kind hRegs with
    | ends _ _ hState =>
      rw [hState, Registers.lookup_set_none] at hNext
      cases hNext
    | makes hMaking hDst hEvents hState hSecure =>
      rw [Registers.lookup_set_self hDst, hState] at hNext
      cases hNext
      exact ⟨_, [], .open ⟨⟨rfl, rfl⟩, hMaking⟩ hEvents hSecure⟩
    | @fills a b n secure hKept ha hEvents hState hCapacity hClass hSecure =>
      rw [Registers.lookup_set_self (Registers.lt_of_lookup ha), hState] at hNext
      cases hNext
      obtain ⟨made, since, hAccount⟩ := hAccounts _ ha
      refine ⟨made, _, hAccount.keep ha (fun _ => hKept) (fun _ => ?_) (fun h => absurd rfl h) ?_⟩
      · rw [hCapacity, hEvents]
        exact growth_roomEvents a n secure
      · rw [hClass, Bool.or_eq_true, hSecure]
        exact or_congr_right ⟨fun h => ⟨⟨rfl, rfl⟩, h⟩, And.right⟩
  | refused =>
    obtain ⟨made, since, hAccount⟩ := hAccounts b' hNext
    refine ⟨made, _, hAccount.idle hNext ?_ rfl rfl fun _ => .other nofun .done⟩
    rintro ⟨-, ⟨⟩⟩
  | exceeded | faulted =>
    obtain ⟨made, since, hAccount⟩ := hAccounts b' hNext
    refine ⟨made, _, hAccount.idle hNext ?_ rfl rfl fun _ => .done⟩
    rintro ⟨-, ⟨⟩⟩
  | asked hPlan =>
    obtain ⟨made, since, hAccount⟩ := hAccounts b' hNext
    exact ⟨made, _, hAccount.idle hNext (fun _ => idle_of_unplanned hPlan) rfl rfl fun _ => .done⟩
  | applied hb hLength =>
    rw [Registers.lookup_set_self (Registers.lt_of_lookup hb)] at hNext
    cases hNext
    obtain ⟨made, since, hAccount⟩ := hAccounts _ hb
    exact ⟨made, _, hAccount.idle hb (fun _ => ⟨id, nofun, id⟩) hLength rfl fun _ => .done⟩

/-- What the account of every buffer is after one step more. -/
theorem step_account (hAlu : alu.Lawful) (hRegs : regs.WellFormed) (s : Step w)
    (hAccounts : ∀ r b, regs.lookup r = some b → ∃ made since, Account entries r b made since)
    (hNext : (step alu regs s).2.lookup r = some b') :
    ∃ made since, Account (entries ++ [⟨regs, s, (step alu regs s).1⟩]) r b' made since := by
  by_cases hr : r = s.dst
  · obtain ⟨t, next, hExecution, hStep⟩ := step_execution hAlu hRegs s
    rw [hStep, hr] at hNext
    rw [hStep, hr]
    exact hExecution.account hRegs (hAccounts s.dst) hNext
  · rw [step_frame hAlu hRegs s hr] at hNext
    obtain ⟨made, since, hAccount⟩ := hAccounts r b' hNext
    have hOther : s.dst ≠ r := fun h => hr h.symm
    exact ⟨made, _, hAccount.idle hNext (fun h => absurd h.1 hOther) rfl rfl
      fun h => absurd h hOther⟩

-- ---------------------------------------------------------------------------
-- Runs
-- ---------------------------------------------------------------------------

theorem run_account (hAlu : alu.Lawful) (n : ℕ) (steps : List (Step w))
    (hb : (run alu steps (Registers.empty w n)).2.lookup r = some b) :
    ∃ made since, Account (history alu steps (Registers.empty w n)) r b made since := by
  induction steps using List.reverseRecOn generalizing r b with
  | nil =>
    rw [run, Registers.lookup_empty] at hb
    cases hb
  | append_singleton steps s ih =>
    rw [run_concat] at hb
    rw [history_concat]
    exact step_account hAlu (run_wellFormed hAlu steps (Registers.wellFormed_empty n)) s
      (fun _ _ => ih) hb

end LimbArith.Session
