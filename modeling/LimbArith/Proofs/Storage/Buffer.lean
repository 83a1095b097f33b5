import LimbArith.Storage.Buffer
import LimbArith.Proofs.Checked
import LimbArith.Proofs.Limbs.Length
import LimbArith.Proofs.Storage.InPlace

/-!
# LimbArith — what storage operations do

Every operation that may need memory has one shape: either the memory can be had,
and the operation answers, or it cannot, and the operation reports and refuses
exactly that. `supply` is this shape; each operation is equal to the supply of
the buffer that it leaves.

Main results:

* `WellFormed` — the invariant of buffers, and what follows for their sizes.
* `makeRoom_eq` — growing and promoting a destination.
* `store_eq` — a result that is written to a destination, as sums and products
  are.
* `ofLimbs_eq`, `clone_eq`, `copyFrom_eq` — the operations that copy.
* `write_eq_ok_iff` — when limbs can be copied into slots, and which slots then
  hold what.
-/

namespace LimbArith

namespace Buffer

variable {w : Width} {α β : Type}

-- ---------------------------------------------------------------------------
-- Memory
-- ---------------------------------------------------------------------------

/-- Memory for `n` limbs is taken to answer `a`. -/
def supply (w : Width) (n : ℕ) (events : List Event) (a : α) : Traced α :=
  if Allocatable w n then ⟨events, .ok a⟩
  else ⟨[.limbsRefused n], .error (.storage (.allocationFailed n))⟩

/-- Once the memory is there, the rest of the operation decides. -/
theorem supply_bind {n : ℕ} {events more : List Event} {a : α} {b : β} {f : α → Traced β}
    (h : Allocatable w n → f a = ⟨more, .ok b⟩) :
    supply w n events a >>= f = supply w n (events ++ more) b := by
  unfold supply
  by_cases hRoom : Allocatable w n
  · rw [if_pos hRoom, if_pos hRoom, Traced.bind_of_ok rfl, h hRoom]
  · rw [if_neg hRoom, if_neg hRoom, Traced.bind_of_error rfl]

theorem supply_bind_pure {n : ℕ} {events : List Event} {a : α} {b : β} {f : α → Traced β}
    (h : Allocatable w n → f a = pure b) :
    supply w n events a >>= f = supply w n events b := by
  have hBind : supply w n events a >>= f = supply w n (events ++ []) b := supply_bind h
  rwa [List.append_nil] at hBind

/-- Once the memory is there, the rest of an operation in place decides. -/
theorem settle_supply_bind {σ : Type} {x : InPlace σ α} {f : α → InPlace σ β} {n : ℕ}
    {events more : List Event} {a : α} {b : β} {s t u : σ}
    (hx : x s = InPlace.settle s (supply w n events (a, t)))
    (h : Allocatable w n → f a t = (⟨more, .ok b⟩, u)) :
    (x >>= f) s = InPlace.settle s (supply w n (events ++ more) (b, u)) := by
  unfold supply at *
  by_cases hRoom : Allocatable w n
  · rw [if_pos hRoom] at hx ⊢
    rw [InPlace.bind_of_ok hx, h hRoom]
    rfl
  · rw [if_neg hRoom] at hx ⊢
    rw [InPlace.bind_of_error hx]
    rfl

theorem settle_supply_bind_pure {σ : Type} {x : InPlace σ α} {f : α → InPlace σ β} {n : ℕ}
    {events : List Event} {a : α} {b : β} {s t u : σ}
    (hx : x s = InPlace.settle s (supply w n events (a, t)))
    (h : Allocatable w n → f a t = (pure b, u)) :
    (x >>= f) s = InPlace.settle s (supply w n events (b, u)) := by
  have hBind : (x >>= f) s = InPlace.settle s (supply w n (events ++ []) (b, u)) :=
    settle_supply_bind hx h
  rwa [List.append_nil] at hBind

/-- Taking memory alone leaves the state. -/
theorem liftM_supply_eq {σ : Type} (n : ℕ) (events : List Event) (a : α) (s : σ) :
    (liftM (supply w n events a) : InPlace σ α) s
      = InPlace.settle s (supply w n events (a, s)) := by
  unfold supply
  split <;> rfl

theorem allocate_eq (n : ℕ) : allocate w n = supply w n [] (List.replicate n 0) := rfl

theorem Allocatable.mono {m n : ℕ} (hn : Allocatable w n) (h : m ≤ n) : Allocatable w m :=
  lt_of_le_of_lt (Nat.mul_le_mul_right _ h) hn

theorem Allocatable.lt {n : ℕ} (hn : Allocatable w n) : n < memoryBound := by
  have hBytes : 0 < w.bytes := by cases w <;> decide
  exact lt_of_le_of_lt (Nat.le_mul_of_pos_right n hBytes) hn

-- ---------------------------------------------------------------------------
-- Well-formed buffers
-- ---------------------------------------------------------------------------

/-- The number is in the slots, and the slots are in memory. -/
structure WellFormed (b : Buffer w) : Prop where
  size_le : b.size ≤ b.capacity
  allocatable : Allocatable w b.capacity

namespace WellFormed

variable {b : Buffer w}

theorem limbs_eq (hb : b.WellFormed) : b.limbs = .ok (b.slots.take b.size) :=
  front_of_le hb.size_le

theorem length_take (hb : b.WellFormed) : (b.slots.take b.size).length = b.size :=
  List.length_take_of_le hb.size_le

/-- Sizes are far below the bound of a size. -/
theorem size_lt (hb : b.WellFormed) : b.size < memoryBound :=
  lt_of_le_of_lt hb.size_le hb.allocatable.lt

theorem value_lt (hb : b.WellFormed) : b.value < radix (w.bits * b.size) := by
  have h := Limbs.value_lt (b.slots.take b.size)
  rw [hb.length_take] at h
  exact h

end WellFormed

variable {b src : Buffer w}

-- ---------------------------------------------------------------------------
-- Room for a result
-- ---------------------------------------------------------------------------

/-- A buffer with at least `n` slots and the same number. -/
def grown (b : Buffer w) (n : ℕ) : Buffer w :=
  if n ≤ b.capacity then b
  else { b with slots := b.slots.take b.size ++ List.replicate (n - b.size) 0 }

/-- The event of growing, if a buffer has to. -/
def growth (b : Buffer w) (n : ℕ) : List Event :=
  if n ≤ b.capacity then [] else [.grew b.sensitivity b.capacity n]

/-- A buffer that is secure if it was or has to be. -/
def promoted (b : Buffer w) (secure : Bool) : Buffer w :=
  { b with sensitivity := if secure then .secure else b.sensitivity }

/-- The event of becoming secure, if a buffer does. -/
def promotion (b : Buffer w) (secure : Bool) : List Event :=
  if secure && !b.isSecure then [.promoted b.capacity] else []

/-- A destination with room for `n` limbs. -/
def roomy (b : Buffer w) (n : ℕ) (secure : Bool) : Buffer w := (b.grown n).promoted secure

/-- The events of making room. -/
def roomEvents (b : Buffer w) (n : ℕ) (secure : Bool) : List Event :=
  b.growth n ++ (b.grown n).promotion secure

theorem reserve_eq (hb : b.WellFormed) (n : ℕ) :
    reserve n b = InPlace.settle b (supply w n (b.growth n) ((), b.grown n)) := by
  unfold reserve growth grown
  rw [InPlace.get_bind]
  by_cases h : n ≤ b.capacity
  · rw [if_pos h, if_pos h, if_pos h, supply, if_pos (hb.allocatable.mono h)]
    rfl
  · rw [if_neg h, if_neg h, if_neg h, ← List.nil_append [_], allocate_eq]
    refine settle_supply_bind (liftM_supply_eq n [] _ b) fun _ => ?_
    -- a buffer grows to more slots than it had, so its number fits the new ones
    have hRoom : (b.slots.take b.size).length ≤ (List.replicate n (0 : Limb w)).length := by
      rw [hb.length_take, List.length_replicate]
      exact le_of_lt (lt_of_le_of_lt hb.size_le (not_le.mp h))
    simp only [hb.limbs_eq, overwrite_low hRoom, InPlace.liftM_ok, pure_bind, InPlace.set_bind,
      List.drop_replicate, hb.length_take]
    rfl

theorem promote_eq (b : Buffer w) (secure : Bool) :
    (if secure then promote else pure ()) b = (⟨b.promotion secure, .ok ()⟩, b.promoted secure) := by
  obtain ⟨slots, size, sensitivity⟩ := b
  cases secure <;> cases sensitivity <;> rfl

theorem makeRoom_eq (hb : b.WellFormed) (n : ℕ) (secure : Bool) :
    makeRoom n secure b
      = InPlace.settle b (supply w n (b.roomEvents n secure) ((), b.roomy n secure)) :=
  settle_supply_bind (reserve_eq hb n) fun _ => promote_eq _ secure

-- ---------------------------------------------------------------------------
-- What room leaves alone
-- ---------------------------------------------------------------------------

theorem capacity_grown (hb : b.WellFormed) (n : ℕ) : (b.grown n).capacity = max b.capacity n := by
  unfold grown
  by_cases h : n ≤ b.capacity
  · rw [if_pos h, max_eq_left h]
  · rw [if_neg h, max_eq_right (le_of_not_ge h)]
    have hSize := hb.size_le
    show (b.slots.take b.size ++ List.replicate (n - b.size) 0).length = n
    rw [List.length_append, hb.length_take, List.length_replicate]
    omega

theorem size_grown (b : Buffer w) (n : ℕ) : (b.grown n).size = b.size := by
  unfold grown
  split <;> rfl

theorem sensitivity_grown (b : Buffer w) (n : ℕ) : (b.grown n).sensitivity = b.sensitivity := by
  unfold grown
  split <;> rfl

theorem value_grown (hb : b.WellFormed) (n : ℕ) : (b.grown n).value = b.value := by
  unfold grown
  split
  · rfl
  · show Limbs.value ((b.slots.take b.size ++ _).take b.size) = _
    rw [List.take_left' hb.length_take]
    rfl

theorem WellFormed.grown (hb : b.WellFormed) {n : ℕ} (hn : Allocatable w n) :
    (b.grown n).WellFormed where
  size_le := by
    rw [size_grown, capacity_grown hb]
    exact le_max_of_le_left hb.size_le
  allocatable := by
    rw [capacity_grown hb]
    rcases max_choice b.capacity n with h | h
    · rw [h]
      exact hb.allocatable
    · rw [h]
      exact hn

theorem capacity_roomy (hb : b.WellFormed) (n : ℕ) (secure : Bool) :
    (b.roomy n secure).capacity = max b.capacity n := capacity_grown hb n

theorem size_roomy (b : Buffer w) (n : ℕ) (secure : Bool) : (b.roomy n secure).size = b.size :=
  size_grown b n

/-- A destination is secure if it was or if the result is. -/
theorem isSecure_roomy (b : Buffer w) (n : ℕ) (secure : Bool) :
    (b.roomy n secure).isSecure = (b.isSecure || secure) := by
  unfold roomy promoted isSecure
  cases secure
  · simp [sensitivity_grown]
  · simp

theorem WellFormed.roomy (hb : b.WellFormed) {n : ℕ} (hn : Allocatable w n) (secure : Bool) :
    (b.roomy n secure).WellFormed :=
  ⟨(hb.grown hn).size_le, (hb.grown hn).allocatable⟩

-- ---------------------------------------------------------------------------
-- Results
-- ---------------------------------------------------------------------------

/-- A buffer whose low slots are overwritten with a result. -/
def filled (b : Buffer w) (xs : Limbs w) : Buffer w :=
  { b with slots := xs ++ b.slots.drop xs.length, size := xs.significantLen }

theorem value_filled (b : Buffer w) (xs : Limbs w) : (b.filled xs).value = Limbs.value xs := by
  show Limbs.value ((xs ++ _).take xs.significantLen) = _
  rw [List.take_append_of_le_length (Limbs.significantLen_le xs), Limbs.value_take_significantLen]

theorem capacity_filled {xs : Limbs w} (h : xs.length ≤ b.capacity) :
    (b.filled xs).capacity = b.capacity := by
  show (xs ++ b.slots.drop xs.length).length = b.slots.length
  rw [List.length_append, List.length_drop]
  exact Nat.add_sub_cancel' h

theorem WellFormed.filled (hb : b.WellFormed) {xs : Limbs w} (h : xs.length ≤ b.capacity) :
    (b.filled xs).WellFormed := by
  refine ⟨?_, ?_⟩
  · rw [capacity_filled h]
    exact le_trans (Limbs.significantLen_le xs) h
  · rw [capacity_filled h]
    exact hb.allocatable

/-- A destination with the low `n` limbs of a number. -/
def stored (b : Buffer w) (secure : Bool) (n v : ℕ) : Buffer w :=
  (b.roomy n secure).filled (Digits.ofNat n v)

/-- There is room for the limbs of a result. -/
theorem length_ofNat_le_roomy (hb : b.WellFormed) (n : ℕ) (secure : Bool) (v : ℕ) :
    (Digits.ofNat n v : Limbs w).length ≤ (b.roomy n secure).capacity := by
  rw [Digits.length_ofNat, capacity_roomy hb]
  exact le_max_right ..

theorem capacity_stored (hb : b.WellFormed) (secure : Bool) (n v : ℕ) :
    (b.stored secure n v).capacity = max b.capacity n :=
  (capacity_filled (length_ofNat_le_roomy hb n secure v)).trans (capacity_roomy hb n secure)

theorem WellFormed.stored (hb : b.WellFormed) {n : ℕ} (hRoom : Allocatable w n) (secure : Bool)
    (v : ℕ) : (b.stored secure n v).WellFormed :=
  (hb.roomy hRoom secure).filled (length_ofNat_le_roomy hb n secure v)

theorem value_stored (b : Buffer w) (secure : Bool) {n v : ℕ} (hFits : v < radix (w.bits * n)) :
    (b.stored secure n v).value = v := by
  rw [stored, value_filled]
  exact Digits.value_ofNat_of_lt hFits

theorem isSecure_stored (b : Buffer w) (secure : Bool) (n v : ℕ) :
    (b.stored secure n v).isSecure = (b.isSecure || secure) := isSecure_roomy b n secure

/-- An operation that writes limbs of a known value to whatever destination it gets leaves that
value. -/
theorem makeRoom_bind (hb : b.WellFormed) {n v : ℕ} {secure : Bool} {f : InPlace (Buffer w) α}
    (a : α)
    (hWrites : ∀ c : Buffer w, n ≤ c.capacity →
      ∃ xs : Limbs w, f c = (pure a, c.filled xs) ∧ xs.length = n ∧ Limbs.value xs = v) :
    (makeRoom n secure >>= fun _ => f) b
      = InPlace.settle b (supply w n (b.roomEvents n secure) (a, b.stored secure n v)) := by
  refine settle_supply_bind_pure (makeRoom_eq hb n secure) fun _ => ?_
  have hRoom : n ≤ (b.roomy n secure).capacity := by
    rw [capacity_roomy hb]
    exact le_max_right ..
  obtain ⟨xs, hWrite, hLength, hValue⟩ := hWrites _ hRoom
  rw [hWrite, Digits.eq_ofNat hLength hValue]
  rfl

-- ---------------------------------------------------------------------------
-- Dropping leading zeros
-- ---------------------------------------------------------------------------

/-- A buffer without leading zeros. -/
def trimmed (b : Buffer w) : Buffer w :=
  { b with size := Limbs.significantLen (b.slots.take b.size) }

theorem trim_eq (hb : b.size ≤ b.capacity) : b.trim = .ok b.trimmed := by
  rw [trim, show b.limbs = _ from front_of_le hb, ok_bind]
  rfl

theorem size_trimmed_le (b : Buffer w) : b.trimmed.size ≤ b.size :=
  le_trans (Limbs.significantLen_le (b.slots.take b.size)) (List.length_take_le ..)

theorem value_trimmed (b : Buffer w) : b.trimmed.value = b.value := by
  show Limbs.value (b.slots.take (Limbs.significantLen (b.slots.take b.size))) = Limbs.value _
  have hLess : Limbs.significantLen (b.slots.take b.size) ≤ b.size := size_trimmed_le b
  rw [← Limbs.value_take_significantLen (b.slots.take b.size), List.take_take, min_eq_left hLess]

theorem WellFormed.trimmed (hb : b.WellFormed) : b.trimmed.WellFormed :=
  ⟨le_trans (size_trimmed_le b) hb.size_le, hb.allocatable⟩

/-- A result in the low slots, trimmed. -/
theorem trim_result (b : Buffer w) (xs : Limbs w) :
    trim { b with slots := xs ++ b.slots.drop xs.length, size := xs.length }
      = .ok (b.filled xs) := by
  rw [trim_eq (show xs.length ≤ (xs ++ b.slots.drop xs.length).length by
    rw [List.length_append]
    exact Nat.le_add_right ..)]
  unfold Buffer.trimmed filled
  rw [List.take_left]

-- ---------------------------------------------------------------------------
-- New buffers
-- ---------------------------------------------------------------------------

/-- A new buffer. -/
def blank (w : Width) (capacity : ℕ) (sensitivity : Sensitivity) : Buffer w :=
  { slots := List.replicate capacity 0, size := 0, sensitivity }

theorem new_eq (n : ℕ) (sensitivity : Sensitivity) :
    new w n sensitivity = supply w n [.allocated n sensitivity] (blank w n sensitivity) :=
  supply_bind fun _ => rfl

theorem capacity_blank (n : ℕ) (sensitivity : Sensitivity) :
    (blank w n sensitivity).capacity = n := List.length_replicate

theorem WellFormed.blank {n : ℕ} (hn : Allocatable w n) (sensitivity : Sensitivity) :
    (blank w n sensitivity).WellFormed where
  size_le := Nat.zero_le _
  allocatable := by
    rw [capacity_blank]
    exact hn

/-- A new buffer with a number in all its slots. -/
def holding (xs : Limbs w) (sensitivity : Sensitivity) : Buffer w :=
  (blank w xs.length sensitivity).filled xs

theorem capacity_holding (xs : Limbs w) (sensitivity : Sensitivity) :
    (holding xs sensitivity).capacity = xs.length := by
  rw [holding, capacity_filled (le_of_eq (capacity_blank _ _).symm), capacity_blank]

theorem value_holding (xs : Limbs w) (sensitivity : Sensitivity) :
    (holding xs sensitivity).value = Limbs.value xs := value_filled _ xs

theorem WellFormed.holding {xs : Limbs w} (hRoom : Allocatable w xs.length)
    (sensitivity : Sensitivity) : (holding xs sensitivity).WellFormed :=
  (WellFormed.blank hRoom sensitivity).filled (le_of_eq (capacity_blank _ _).symm)

/-- A number that is written to all slots of a new buffer, trimmed. -/
theorem trim_holding (xs : Limbs w) (sensitivity : Sensitivity) :
    trim { blank w xs.length sensitivity with slots := xs, size := xs.length }
      = .ok (holding xs sensitivity) := by
  have hFull : (blank w xs.length sensitivity).slots.drop xs.length = [] :=
    List.drop_of_length_le (le_of_eq (capacity_blank xs.length sensitivity))
  have hTrim := trim_result (blank w xs.length sensitivity) xs
  rw [hFull, List.append_nil] at hTrim
  exact hTrim

theorem ofLimbs_eq (xs : Limbs w) (sensitivity : Sensitivity) :
    ofLimbs xs sensitivity = supply w xs.length [.allocated xs.length sensitivity]
      (holding xs sensitivity) := by
  rw [ofLimbs, new_eq]
  refine supply_bind fun _ => ?_
  rw [copyOver_of_length_eq (capacity_blank xs.length sensitivity), Traced.liftM_ok, pure_bind,
    trim_holding]
  rfl

/-- A copy is the buffer itself. -/
theorem clone_eq (b : Buffer w) :
    b.clone = supply w b.capacity [.allocated b.capacity b.sensitivity] b := by
  rw [clone, new_eq]
  refine supply_bind fun _ => ?_
  rw [copyOver_of_length_eq (capacity_blank b.capacity b.sensitivity)]
  rfl

-- ---------------------------------------------------------------------------
-- Copying a number
-- ---------------------------------------------------------------------------

/-- A buffer whose low slots are overwritten with the number of another, and those of its own
number above with zeros. -/
def copied (b src : Buffer w) : Buffer w :=
  { b with
    slots := src.slots.take src.size ++ List.replicate (b.size - src.size) 0
      ++ b.slots.drop (src.size + (b.size - src.size))
    size := src.size }

theorem value_copied (b : Buffer w) (hSrc : src.WellFormed) : (b.copied src).value = src.value := by
  show Limbs.value ((src.slots.take src.size ++ _ ++ _).take src.size) = _
  rw [List.append_assoc, List.take_left' hSrc.length_take]
  rfl

theorem capacity_copied (hSize : b.size ≤ b.capacity) (hSrc : src.WellFormed)
    (hRoom : src.size ≤ b.capacity) : (b.copied src).capacity = b.capacity := by
  show (src.slots.take src.size ++ List.replicate (b.size - src.size) 0
    ++ b.slots.drop (src.size + (b.size - src.size))).length = b.slots.length
  rw [List.length_append, List.length_append, hSrc.length_take, List.length_replicate,
    List.length_drop]
  unfold capacity at hSize hRoom
  omega

/-- A number that is copied has room in its destination. -/
theorem room_copied (hb : b.WellFormed) (n : ℕ) (secure : Bool) :
    (b.roomy n secure).size ≤ (b.roomy n secure).capacity ∧ n ≤ (b.roomy n secure).capacity := by
  rw [size_roomy, capacity_roomy hb]
  exact ⟨le_max_of_le_left hb.size_le, le_max_right ..⟩

theorem capacity_copied_roomy (hb : b.WellFormed) (hSrc : src.WellFormed) (secure : Bool) :
    ((b.roomy src.size secure).copied src).capacity = max b.capacity src.size := by
  obtain ⟨hSize, hRoom⟩ := room_copied hb src.size secure
  rw [capacity_copied hSize hSrc hRoom, capacity_roomy hb]

theorem WellFormed.copied (hb : b.WellFormed) (hSrc : src.WellFormed)
    (hRoom : src.size ≤ b.capacity) : (b.copied src).WellFormed := by
  refine ⟨?_, ?_⟩
  · rw [capacity_copied hb.size_le hSrc hRoom]
    exact hRoom
  · rw [capacity_copied hb.size_le hSrc hRoom]
    exact hb.allocatable

theorem copyFrom_eq (hb : b.WellFormed) (hSrc : src.WellFormed) :
    copyFrom src b = InPlace.settle b (supply w src.size (b.roomEvents src.size src.isSecure)
      ((), (b.roomy src.size src.isSecure).copied src)) := by
  refine settle_supply_bind_pure (makeRoom_eq hb _ _) fun _ => ?_
  have hRoom : max b.size src.size ≤ (b.roomy src.size src.isSecure).slots.length := by
    rw [show (b.roomy src.size src.isSecure).slots.length = _ from capacity_roomy hb _ _]
    exact max_le_max_right _ hb.size_le
  have hLow : (src.slots.take src.size).length
      ≤ (b.roomy src.size src.isSecure).slots.length := by
    rw [hSrc.length_take]
    exact le_trans (le_max_right ..) hRoom
  have hHigh : src.size + (List.replicate (b.size - src.size) (0 : Limb w)).length
      ≤ (src.slots.take src.size ++
          (b.roomy src.size src.isSecure).slots.drop src.size).length := by
    rw [List.length_append, hSrc.length_take, List.length_replicate, List.length_drop]
    omega
  simp only [InPlace.get_bind, hSrc.limbs_eq, InPlace.liftM_ok, pure_bind, overwrite_low hLow,
    hSrc.length_take, size_roomy, overwrite_of_le hHigh, InPlace.set_apply]
  rw [List.take_left' hSrc.length_take, List.length_replicate, ← List.drop_drop,
    List.drop_left' hSrc.length_take, List.drop_drop]
  unfold copied
  rw [size_roomy]

-- ---------------------------------------------------------------------------
-- Slots and sizes
-- ---------------------------------------------------------------------------

theorem WellFormed.setSize (hb : b.WellFormed) {n : ℕ} (h : n ≤ b.capacity) :
    ({ b with size := n } : Buffer w).WellFormed := ⟨h, hb.allocatable⟩

/-- Slots that are written over, the others and the size as they were. -/
theorem WellFormed.overwrite (hb : b.WellFormed) {slots : Limbs w}
    (h : slots.length = b.slots.length) : ({ b with slots } : Buffer w).WellFormed := by
  have hCapacity : ({ b with slots } : Buffer w).capacity = b.capacity := h
  refine ⟨?_, ?_⟩
  · rw [hCapacity]
    exact hb.size_le
  · rw [hCapacity]
    exact hb.allocatable

/-- The buffer with `xs` in its slots from position `start` on; the other slots and the size are as
they were. -/
def written (b : Buffer w) (start : ℕ) (xs : Limbs w) : Buffer w :=
  { b with slots := b.slots.take start ++ xs ++ b.slots.drop (start + xs.length) }

/-- A write answers exactly if its limbs are in range. -/
theorem write_eq_ok_iff {start : ℕ} {xs : Limbs w} {c : Buffer w} :
    b.write start xs = .ok c ↔ start + xs.length ≤ b.capacity ∧ b.written start xs = c := by
  constructor
  · intro h
    obtain ⟨slots, hSlots, hWritten⟩ := bind_eq_ok_iff.mp h
    obtain ⟨_, hRange, hPieces⟩ := bind_eq_ok_iff.mp hSlots
    cases hPieces
    exact ⟨require_eq_ok_iff.mp hRange, Except.ok.inj hWritten⟩
  · rintro ⟨hRange, rfl⟩
    rw [write, overwrite_of_le hRange]
    rfl

theorem capacity_written {start : ℕ} {xs : Limbs w} (h : start + xs.length ≤ b.capacity) :
    (b.written start xs).capacity = b.capacity := by
  unfold written capacity at *
  rw [List.length_append, List.length_append, List.length_drop, List.length_take_of_le (by omega)]
  omega

theorem WellFormed.written (hb : b.WellFormed) {start : ℕ} {xs : Limbs w}
    (h : start + xs.length ≤ b.capacity) : (b.written start xs).WellFormed :=
  hb.overwrite (capacity_written h)

theorem value_wipe (b : Buffer w) : b.wipe.value = 0 := rfl

theorem WellFormed.wipe (hb : b.WellFormed) : b.wipe.WellFormed := by
  have hCapacity : b.wipe.capacity = b.capacity := List.length_replicate
  refine ⟨Nat.zero_le _, ?_⟩
  rw [hCapacity]
  exact hb.allocatable

end Buffer

end LimbArith
