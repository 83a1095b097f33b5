import LimbArith.Proofs.Session.Run

/-!
# LimbArith — secure contents stay in secure buffers

Two runs of one session that start with different secure buffers end with the
same ordinary ones. The sizes of secure numbers may decide whether a command
fails and what it leaves, but all of that ends up in secure buffers: a destination
becomes secure before anything is written to it.

The proof is a relation between the two runs. Plans for related registers leave
related buffers: a plan that reads a secure buffer leaves a secure one in both
runs, and any other plan is the same plan in both.

Main results:

* `Registers.Agree` — registers that differ only in secure contents.
* `plan_agree`, `step_agree` — plans and steps keep it.
* `run_noninterference` — runs keep it.
-/

namespace LimbArith

-- ---------------------------------------------------------------------------
-- Agreement
-- ---------------------------------------------------------------------------

namespace Buffer

variable {w : Width} {b c : Buffer w}

/-- The same sensitivity, and unless that is secure the same slots and size. -/
def Agree (b c : Buffer w) : Prop :=
  b.sensitivity = c.sensitivity ∧ (b.sensitivity = .ordinary → b = c)

theorem Agree.refl (b : Buffer w) : b.Agree b := ⟨rfl, fun _ => rfl⟩

theorem isSecure_eq_false : b.isSecure = false ↔ b.sensitivity = .ordinary := by
  unfold isSecure
  cases b.sensitivity with
  | ordinary => exact ⟨fun _ => rfl, fun _ => rfl⟩
  | secure => exact ⟨nofun, nofun⟩

theorem Agree.isSecure_eq (h : b.Agree c) : b.isSecure = c.isSecure := by
  unfold isSecure
  rw [h.1]

/-- Buffers that agree are the same or both secure. -/
theorem Agree.eq_or_secure (h : b.Agree c) : b = c ∨ (b.isSecure = true ∧ c.isSecure = true) := by
  cases hSecure : b.isSecure with
  | false => exact .inl (h.2 (isSecure_eq_false.mp hSecure))
  | true => exact .inr ⟨rfl, h.isSecure_eq ▸ hSecure⟩

theorem agree_of_secure (hb : b.isSecure = true) (hc : c.isSecure = true) : b.Agree c := by
  obtain ⟨slots, size, sensitivity⟩ := b
  obtain ⟨slots', size', sensitivity'⟩ := c
  cases sensitivity with
  | ordinary => cases hb
  | secure =>
    cases sensitivity' with
    | ordinary => cases hc
    | secure => exact ⟨rfl, nofun⟩

/-- Results for destinations that agree: they are secure on both sides, or one and the same. -/
theorem Agree.result {s t : Bool} {b' c' : Buffer w} (h : b.Agree c) (hSame : s = t)
    (hb : b'.isSecure = (b.isSecure || s)) (hc : c'.isSecure = (c.isSecure || t))
    (hEqual : b = c → s = false → b' = c') : b'.Agree c' := by
  subst hSame
  cases s with
  | true => exact agree_of_secure (by rw [hb, Bool.or_true]) (by rw [hc, Bool.or_true])
  | false =>
    rcases h.eq_or_secure with hbc | ⟨hbSecure, hcSecure⟩
    · rw [hEqual hbc rfl]
      exact .refl c'
    · exact agree_of_secure (by rw [hb, hbSecure, Bool.true_or])
        (by rw [hc, hcSecure, Bool.true_or])

end Buffer

namespace Session

open Buffer

variable {w : Width} {alu : Alu w} {regs other : Registers w} {dst r : ℕ}

/-- Registers that differ in the contents of secure buffers only: the same of them are in use, with
the same sensitivities, and ordinary buffers are the same. -/
structure Registers.Agree (regs other : Registers w) : Prop where
  length_eq : regs.length = other.length
  lookup : ∀ r, Option.Rel Buffer.Agree (regs.lookup r) (other.lookup r)

theorem Registers.Agree.set (h : regs.Agree other) {o o' : Option (Buffer w)}
    (ho : Option.Rel Buffer.Agree o o') : Agree (regs.set dst o) (other.set dst o') where
  length_eq := by
    rw [List.length_set, List.length_set]
    exact h.length_eq
  lookup := by
    intro r
    by_cases hDst : dst < regs.length
    · by_cases hr : r = dst
      · rw [hr, lookup_set_self hDst, lookup_set_self (h.length_eq ▸ hDst)]
        exact ho
      · rw [lookup_set_ne hr, lookup_set_ne hr]
        exact h.lookup r
    · rw [List.set_eq_of_length_le (not_lt.mp hDst),
        List.set_eq_of_length_le (h.length_eq ▸ not_lt.mp hDst)]
      exact h.lookup r

-- ---------------------------------------------------------------------------
-- Plans
-- ---------------------------------------------------------------------------

/-- What a register holds after a plan, or after there was none. -/
def Registers.after (regs : Registers w) (dst : ℕ) : Except Failure (Plan w) → Option (Buffer w)
  | .ok p => p.state
  | .error _ => regs.lookup dst

/-- Plans, or failures to plan, that leave buffers that agree. -/
def PlansAgree (regs other : Registers w) (dst : ℕ) (p q : Except Failure (Plan w)) : Prop :=
  Option.Rel Buffer.Agree (regs.after dst p) (other.after dst q)

/-- What is planned with a buffer that is read from a register. -/
theorem get_agree (h : regs.Agree other) {f g : Buffer w → Except Failure (Plan w)}
    (hRest : ∀ b c, regs.lookup r = some b → other.lookup r = some c → b.Agree c →
      PlansAgree regs other dst (f b) (g c)) :
    PlansAgree regs other dst (liftM (regs.get r) >>= f) (liftM (other.get r) >>= g) := by
  have hAgree := h.lookup r
  unfold Registers.get
  cases hb : regs.lookup r with
  | none =>
    cases hc : other.lookup r with
    | none => exact h.lookup dst
    | some c =>
      rw [hb, hc] at hAgree
      cases hAgree
  | some b =>
    cases hc : other.lookup r with
    | none =>
      rw [hb, hc] at hAgree
      cases hAgree
    | some c =>
      rw [hb, hc] at hAgree
      cases hAgree with
      | some hbc => exact hRest b c hb hc hbc

theorem operand_agree (h : regs.Agree other) {f g : Buffer w → Except Failure (Plan w)}
    (hRest : ∀ b c, b.Agree c → PlansAgree regs other dst (f b) (g c)) :
    PlansAgree regs other dst (liftM (regs.operand dst r) >>= f)
      (liftM (other.operand dst r) >>= g) := by
  unfold Registers.operand
  by_cases hr : r ≠ dst
  · rw [require_pos hr]
    exact get_agree h fun b c _ _ => hRest b c
  · rw [require_neg hr]
    exact h.lookup dst

/-- A change that reads no other buffer and keeps secure ones secure. Whether it can be planned may
depend on secure contents, but then the buffer it leaves alone is secure too. -/
theorem change_agree (h : regs.Agree other) {f : Buffer w → Except Failure (Plan w)}
    (hSecure : ∀ b p, f b = .ok p →
      ∃ b', p.state = some b' ∧ b'.sensitivity = b.sensitivity) :
    PlansAgree regs other dst (liftM (regs.get dst) >>= f) (liftM (other.get dst) >>= f) := by
  refine get_agree h fun b c hb hc hbc => ?_
  -- planned or not, the register keeps a buffer of its sensitivity
  have hLeft : ∀ {file : Registers w} {d : Buffer w}, file.lookup dst = some d →
      ∃ d', file.after dst (f d) = some d' ∧ d'.sensitivity = d.sensitivity := by
    intro file d hd
    cases hf : f d with
    | ok p => exact hSecure d p hf
    | error e => exact ⟨d, hd, rfl⟩
  obtain ⟨b', hb', hbSame⟩ := hLeft hb
  obtain ⟨c', hc', hcSame⟩ := hLeft hc
  unfold PlansAgree
  rcases hbc.eq_or_secure with rfl | ⟨hbSecure, hcSecure⟩
  · cases hf : f b with
    | ok p =>
      obtain ⟨d, hd, -⟩ := hSecure b p hf
      show Option.Rel Buffer.Agree p.state p.state
      rw [hd]
      exact .some (.refl d)
    | error e => exact h.lookup dst
  · rw [hb', hc']
    refine .some (agree_of_secure ?_ ?_)
    · rw [isSecure, hbSame]
      exact hbSecure
    · rw [isSecure, hcSame]
      exact hcSecure

/-- A number of known size that is written to a destination. -/
theorem store_agree {b c : Buffer w} (h : b.Agree c) {s t : Bool} {m n u v : ℕ}
    {reply reply' : Reply w} (hSame : s = t) (hNumbers : s = false → m = n ∧ u = v) :
    PlansAgree regs other dst (pure (planStore b s m u reply))
      (pure (planStore c t n v reply')) := by
  refine .some (h.result hSame (isSecure_stored ..) (isSecure_stored ..) ?_)
  intro hbc hs
  obtain ⟨rfl, rfl⟩ := hNumbers hs
  rw [hbc, hSame]

/-- What is read from ordinary operands is the same on both sides. -/
theorem eq_of_or_eq_false {a a' d d' : Buffer w} (ha : a.Agree a') (hd : d.Agree d')
    (h : (a.isSecure || d.isSecure) = false) : a = a' ∧ d = d' := by
  obtain ⟨haSecure, hdSecure⟩ := Bool.or_eq_false_iff.mp h
  exact ⟨ha.2 (isSecure_eq_false.mp haSecure), hd.2 (isSecure_eq_false.mp hdSecure)⟩

/-- A number made of two operands: it goes to a secure destination, or it is the same number. -/
theorem storePair_agree {a a' b c d d' : Buffer w} (h : b.Agree c) (ha : a.Agree a')
    (hd : d.Agree d') (size number : Buffer w → Buffer w → ℕ)
    (reply : Buffer w → Buffer w → Reply w) :
    PlansAgree regs other dst
      (pure (planStore b (a.isSecure || d.isSecure) (size a d) (number a d) (reply a d)))
      (pure (planStore c (a'.isSecure || d'.isSecure) (size a' d') (number a' d')
        (reply a' d'))) := by
  refine store_agree h (by rw [ha.isSecure_eq, hd.isSecure_eq]) fun hOrdinary => ?_
  obtain ⟨rfl, rfl⟩ := eq_of_or_eq_false ha hd hOrdinary
  exact ⟨rfl, rfl⟩

/-- The operands of a product are read like those of a sum. -/
theorem factor_bind (regs : Registers w) (dst x y : ℕ)
    (f : Buffer w → Buffer w → Except Failure (Plan w)) :
    ((liftM (factor regs dst x y) : Except Failure (Factor (Buffer w))) >>= fun e =>
      liftM (regs.operand dst x) >>= fun a => f a (a.secondFactor e))
    = (liftM (regs.operand dst y) >>= fun d => liftM (regs.operand dst x) >>= fun a => f a d) := by
  unfold factor
  by_cases h : y = x
  · rw [if_pos h, h]
    cases regs.operand dst x with
    | ok a => rfl
    | error e => rfl
  · rw [if_neg h]
    cases regs.operand dst y with
    | ok d => rfl
    | error e => rfl

theorem factor_agree (h : regs.Agree other) {x y : ℕ}
    (f g : Buffer w → Buffer w → Except Failure (Plan w))
    (hRest : ∀ a a' d d', a.Agree a' → d.Agree d' → PlansAgree regs other dst (f a d) (g a' d')) :
    PlansAgree regs other dst
      (liftM (factor regs dst x y) >>= fun e =>
        liftM (regs.operand dst x) >>= fun a => f a (a.secondFactor e))
      (liftM (factor other dst x y) >>= fun e =>
        liftM (other.operand dst x) >>= fun a => g a (a.secondFactor e)) := by
  rw [factor_bind, factor_bind]
  exact operand_agree h fun d d' hd => operand_agree h fun a a' ha => hRest a a' d d' ha hd

theorem planNew_agree (h : regs.Agree other) {m n : Checked ℕ} {b c : Buffer w}
    (hCounted : m.isOk = n.isOk) (hbc : b.Agree c) :
    PlansAgree regs other dst (planNew regs dst m b) (planNew other dst n c) := by
  unfold planNew
  by_cases hDst : dst < regs.length
  · rw [require_pos hDst, require_pos (h.length_eq ▸ hDst)]
    cases m <;> cases n <;> cases hCounted
    · exact h.lookup dst
    · exact .some hbc
  · rw [require_neg hDst, require_neg (h.length_eq ▸ hDst)]
    exact h.lookup dst

theorem plan_agree (h : regs.Agree other) {c : Command w} {p q : Except Failure (Plan w)}
    (hp : plan regs dst c = some p) (hq : plan other dst c = some q) :
    PlansAgree regs other dst p q := by
  cases c <;> cases hp <;> cases hq
  case new => exact planNew_agree h rfl (.refl _)
  case ofLimbs => exact planNew_agree h rfl (.refl _)
  case ofBytes => exact planNew_agree h rfl (.refl _)
  case clone => exact get_agree h fun b c _ _ hbc => planNew_agree h rfl hbc
  case drop => exact .none
  case write start xs =>
    refine change_agree h fun b p hp => ?_
    obtain ⟨c, hc, hDone⟩ := Traced.liftM_bind_eq_ok_iff.mp hp
    obtain ⟨-, rfl⟩ := write_eq_ok_iff.mp hc
    cases hDone
    exact ⟨_, rfl, rfl⟩
  case setSize n =>
    refine change_agree h fun b p hp => ?_
    split at hp
    · cases hp
      exact ⟨_, rfl, rfl⟩
    · cases hp
  case trim =>
    refine change_agree h fun b p hp => ?_
    cases hp
    exact ⟨_, rfl, rfl⟩
  case wipe =>
    refine change_agree h fun b p hp => ?_
    cases hp
    exact ⟨_, rfl, rfl⟩
  case reserve n =>
    refine change_agree h fun b p hp => ?_
    cases hp
    exact ⟨_, rfl, sensitivity_grown b n⟩
  case copyFrom src =>
    refine get_agree h fun b c _ _ hbc => operand_agree h fun a d had => ?_
    refine .some (hbc.result had.isSecure_eq (isSecure_roomy ..) (isSecure_roomy ..) ?_)
    intro hSame hOrdinary
    rw [hSame, had.2 (isSecure_eq_false.mp hOrdinary)]
  case setSquare x =>
    refine get_agree h fun b c _ _ hbc => operand_agree h fun a d had => ?_
    refine store_agree hbc had.isSecure_eq fun hOrdinary => ?_
    rw [had.2 (isSecure_eq_false.mp hOrdinary)]
    exact ⟨rfl, rfl⟩
  case setProduct x y =>
    refine get_agree h fun b c _ _ hbc => ?_
    refine factor_agree h
      (fun a d => pure (planStore b (a.isSecure || d.isSecure) (a.size + d.size)
        (a.value * d.value) .done))
      (fun a d => pure (planStore c (a.isSecure || d.isSecure) (a.size + d.size)
        (a.value * d.value) .done)) fun a a' d d' ha hd => ?_
    exact storePair_agree hbc ha hd (fun a d => a.size + d.size) (fun a d => a.value * d.value)
      fun _ _ => .done
  case setSum x y =>
    refine get_agree h fun b c _ _ hbc => ?_
    refine operand_agree h fun a a' ha => operand_agree h fun d d' hd => ?_
    exact storePair_agree hbc ha hd (fun a d => max a.size d.size + 1)
      (fun a d => a.value + d.value) fun _ _ => .done
  case setDifference x y =>
    refine get_agree h fun b c _ _ hbc => ?_
    refine operand_agree h fun a a' ha => operand_agree h fun d d' hd => ?_
    exact storePair_agree hbc ha hd (fun a d => max a.size d.size) differenceFrom
      fun a d => .returned (.limb (a.borrowOf d))

-- ---------------------------------------------------------------------------
-- Steps and runs
-- ---------------------------------------------------------------------------

/-- Commands other than array operations, which may copy limbs between any registers. -/
def Command.Plain : Command w → Prop
  | .apply _ _ => False
  | _ => True

/-- Some command of a run was refused memory. -/
def Refused (outcomes : List (Outcome w)) : Prop :=
  ∃ n, .error (.storage (.allocationFailed n)) ∈ outcomes.map Outcome.reply

/-- A step that gets its memory leaves what its plan says. -/
theorem step_planned (hAlu : alu.Lawful) (hRegs : regs.WellFormed) {s : Step w}
    {p : Except Failure (Plan w)} (hPlan : plan regs s.dst s.command = some p)
    (hRoom : ∀ n, (step alu regs s).1.reply ≠ .error (.storage (.allocationFailed n))) :
    (step alu regs s).2 = regs.set s.dst (regs.after s.dst p) := by
  unfold step at *
  cases p with
  | error e =>
    rw [execute_unready hAlu hRegs hPlan, Registers.after, Registers.set_lookup]
  | ok q =>
    by_cases hMemory : Allocatable w q.limbs
    · rw [execute_planned hAlu hRegs (planned_of_plan hPlan) hMemory]
      rfl
    · rw [execute_refused hAlu hRegs (planned_of_plan hPlan) hMemory] at hRoom
      exact absurd rfl (hRoom q.limbs)

/-- Whether a command has a plan does not depend on the registers. -/
theorem plan_eq_none_iff {c : Command w} : plan regs dst c = none ↔ plan other dst c = none := by
  cases c <;> exact ⟨fun h => by cases h <;> rfl, fun h => by cases h <;> rfl⟩

/-- A plain command without a plan only looks at a buffer. -/
theorem step_unplanned (hAlu : alu.Lawful) (hRegs : regs.WellFormed) {s : Step w}
    (hPlain : s.command.Plain) (hPlan : plan regs s.dst s.command = none) :
    (step alu regs s).2 = regs := by
  obtain ⟨dst, c⟩ := s
  obtain ⟨t, next, hExecution, hStep⟩ := step_execution hAlu hRegs ⟨dst, c⟩
  rw [hStep]
  cases hExecution with
  | planned h =>
    rw [plan_of_planned h] at hPlan
    cases hPlan
  | applied => cases hPlain
  | refused | exceeded | faulted | asked => rfl

theorem step_agree (hAlu : alu.Lawful) (hRegs : regs.WellFormed) (hOther : other.WellFormed)
    (h : regs.Agree other) {s : Step w} (hPlain : s.command.Plain)
    (hRoom : ∀ n, (step alu regs s).1.reply ≠ .error (.storage (.allocationFailed n)))
    (hRoom' : ∀ n, (step alu other s).1.reply ≠ .error (.storage (.allocationFailed n))) :
    (step alu regs s).2.Agree (step alu other s).2 := by
  cases hp : plan regs s.dst s.command with
  | none =>
    rw [step_unplanned hAlu hRegs hPlain hp,
      step_unplanned hAlu hOther hPlain (plan_eq_none_iff.mp hp)]
    exact h
  | some p =>
    cases hq : plan other s.dst s.command with
    | none =>
      rw [plan_eq_none_iff.mp hq] at hp
      cases hp
    | some q =>
      rw [step_planned hAlu hRegs hp hRoom, step_planned hAlu hOther hq hRoom']
      exact h.set (plan_agree h hp hq)

/-- **Secure limbs never reach an ordinary buffer.** Two runs of one session, from registers that
differ in secure contents only, end with registers that differ in secure contents only, as long as
there is memory in both. -/
theorem run_noninterference (impl : Implementation w) {steps : List (Step w)}
    {regs other : Registers w} (hPlain : ∀ s ∈ steps, s.command.Plain)
    (hRegs : regs.WellFormed) (hOther : other.WellFormed) (hAgree : regs.Agree other)
    (hRoom : ¬ Refused (run impl.alu steps regs).1)
    (hRoom' : ¬ Refused (run impl.alu steps other).1) :
    (run impl.alu steps regs).2.Agree (run impl.alu steps other).2 := by
  induction steps generalizing regs other with
  | nil => exact hAgree
  | cons s steps ih =>
    -- memory for the whole run is memory for its first step and for the others
    have hFirst : ∀ {file : Registers w}, ¬ Refused (run impl.alu (s :: steps) file).1 →
        ∀ n, (step impl.alu file s).1.reply ≠ .error (.storage (.allocationFailed n)) := by
      intro file hFile n hReply
      exact hFile ⟨n, List.mem_map.mpr ⟨_, List.mem_cons_self, hReply⟩⟩
    have hRest : ∀ {file : Registers w}, ¬ Refused (run impl.alu (s :: steps) file).1 →
        ¬ Refused (run impl.alu steps (step impl.alu file s).2).1 := by
      intro file hFile hLater
      obtain ⟨n, hn⟩ := hLater
      exact hFile ⟨n, List.mem_cons_of_mem _ hn⟩
    have hStep := step_agree impl.lawful hRegs hOther hAgree (hPlain s List.mem_cons_self)
      (hFirst hRoom) (hFirst hRoom')
    exact ih (fun t ht => hPlain t (List.mem_cons_of_mem s ht))
      (step_wellFormed impl.lawful hRegs s) (step_wellFormed impl.lawful hOther s) hStep
      (hRest hRoom) (hRest hRoom')

/-- Registers with a secret and two ordinary buffers. -/
def withSecret (xs : Limbs .w32) : Registers .w32 :=
  [some ⟨xs, xs.length, .secure⟩, some ⟨[7], 1, .ordinary⟩, some ⟨[0, 0], 0, .ordinary⟩]

theorem wellFormed_withSecret {xs : Limbs .w32} (h : Allocatable .w32 xs.length) :
    (withSecret xs).WellFormed := by
  intro r b hb
  match r with
  | 0 =>
    cases hb
    exact ⟨le_refl _, h⟩
  | 1 =>
    cases hb
    exact ⟨le_refl _, by decide⟩
  | 2 =>
    cases hb
    exact ⟨Nat.zero_le _, by decide⟩
  | r + 3 => cases hb

theorem agree_withSecret (xs ys : Limbs .w32) : (withSecret xs).Agree (withSecret ys) where
  length_eq := rfl
  lookup := by
    intro r
    match r with
    | 0 => exact .some (agree_of_secure rfl rfl)
    | 1 => exact .some (.refl _)
    | 2 => exact .some (.refl _)
    | r + 3 => exact .none

/-- A square of an ordinary buffer, and a sum with the secret. -/
def mixing : List (Step .w32) := [⟨2, .setProduct 1 1⟩, ⟨1, .setSum 0 2⟩]

theorem run_noninterference_mixing :
    withSecret [5] ≠ withSecret [8, 9] ∧ (withSecret [5]).Agree (withSecret [8, 9]) ∧
      (run (Implementation.portable .w32).alu mixing (withSecret [5])).2.Agree
        (run (Implementation.portable .w32).alu mixing (withSecret [8, 9])).2 := by
  have hPlain : ∀ s ∈ mixing, s.command.Plain := by
    intro s hs
    simp only [mixing, List.mem_cons, List.not_mem_nil, or_false] at hs
    rcases hs with rfl | rfl
    · trivial
    · trivial
  have hAnswers : ∀ {outcomes : List (Outcome .w32)},
      outcomes.map Outcome.reply = [.ok .done, .ok .done] → ¬ Refused outcomes := by
    intro outcomes hReplies hRefused
    obtain ⟨n, hn⟩ := hRefused
    rw [hReplies] at hn
    simp at hn
  refine ⟨by decide, agree_withSecret _ _, ?_⟩
  exact run_noninterference (.portable .w32) hPlain (wellFormed_withSecret (by decide))
    (wellFormed_withSecret (by decide)) (agree_withSecret _ _) (hAnswers rfl) (hAnswers rfl)

end Session

end LimbArith
