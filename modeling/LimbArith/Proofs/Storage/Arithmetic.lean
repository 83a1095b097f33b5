import LimbArith.Storage.Arithmetic
import LimbArith.Proofs.Limbs.Square
import LimbArith.Proofs.Limbs.Sum
import LimbArith.Proofs.Storage.Buffer

/-!
# LimbArith — what arithmetic on buffers leaves

Sums, differences, products and squares all take memory for their limbs and leave
the digits of the exact result, whatever their destination held before. The
limbs above the result stay as they were.

Main results:

* `setSum_eq`, `setProduct_eq`, `setSquare_eq`, `setDifference_eq` — the four
  operations as the supply of the buffer with the result.
-/

namespace LimbArith.Buffer

variable {w : Width} {alu : Alu w} {b x y : Buffer w}

theorem finish_eq {xs : Limbs w} (h : xs.length ≤ b.capacity) :
    b.finish xs = .ok (b.filled xs) := by
  rw [finish, overwrite_low h, ok_bind]
  exact trim_result b xs

/-- The low slots, as a window for a result. -/
theorem front_slots {n : ℕ} (h : n ≤ b.capacity) : front n b.slots = .ok (b.slots.take n) :=
  front_of_le h

theorem length_window {n : ℕ} (h : n ≤ b.capacity) : (b.slots.take n).length = n :=
  List.length_take_of_le h

-- ---------------------------------------------------------------------------
-- Sums
-- ---------------------------------------------------------------------------

theorem WellFormed.value_lt_of_size_le (hb : b.WellFormed) {n : ℕ} (hn : b.size ≤ n) :
    b.value < radix (w.bits * n) :=
  lt_of_lt_of_le hb.value_lt (Nat.pow_le_pow_right (by decide) (Nat.mul_le_mul_left _ hn))

/-- A sum takes at most one limb more than its longer operand. -/
theorem WellFormed.add_value_lt (hx : x.WellFormed) (hy : y.WellFormed) :
    x.value + y.value < radix (w.bits * (max x.size y.size + 1)) := by
  have hxLong := hx.value_lt_of_size_le (le_max_left x.size y.size)
  have hyLong := hy.value_lt_of_size_le (le_max_right x.size y.size)
  have hTwo : 2 ≤ radix w.bits := by cases w <;> decide
  calc x.value + y.value < 2 * radix (w.bits * max x.size y.size) := by omega
    _ ≤ radix w.bits * radix (w.bits * max x.size y.size) := Nat.mul_le_mul_right _ hTwo
    _ = radix (w.bits * (max x.size y.size + 1)) := (radix_mul_succ _ _).symm

theorem setSum_swap (h : x.size < y.size) : setSum alu x y = setSum alu y x := by
  unfold setSum
  rw [if_neg (not_le.mpr h), if_pos (le_of_lt h)]

theorem setSum_eq_of_le (hAlu : alu.Lawful) (hb : b.WellFormed) (hx : x.WellFormed)
    (hy : y.WellFormed) (hShort : y.size ≤ x.size) :
    setSum alu x y b = InPlace.settle b (supply w (x.size + 1)
      (b.roomEvents (x.size + 1) (x.isSecure || y.isSecure))
      ((), b.stored (x.isSecure || y.isSecure) (x.size + 1) (x.value + y.value))) := by
  have hCount : x.size + 1 < Size.bound :=
    lt_of_lt_of_le (Nat.succ_lt_succ hx.size_lt) (by decide)
  unfold setSum
  rw [if_pos hShort]
  simp only [Size.add_eq hCount, InPlace.liftM_ok, pure_bind]
  refine makeRoom_bind hb () fun c hRoom => ?_
  have hWindow := length_window (Nat.le_of_succ_le hRoom)
  have hLengths : (y.slots.take y.size).length ≤ (x.slots.take x.size).length := by
    rw [hx.length_take, hy.length_take]
    exact hShort
  have hFits : (x.slots.take x.size).length ≤ (c.slots.take x.size).length := by
    rw [hWindow, hx.length_take]
  obtain ⟨carry, low, hSum, hLow, hValue⟩ := Limbs.addInto_exact hAlu hLengths hFits
  rw [hx.length_take] at hSum hLow hValue
  rw [List.drop_of_length_le (le_of_eq hWindow), List.append_nil] at hSum
  -- the carry takes the limb above the sum
  have hLength : (low ++ [carry]).length = x.size + 1 := by
    rw [List.length_append, hLow]
    rfl
  refine ⟨low ++ [carry], ?_, hLength, ?_⟩
  · simp only [InPlace.get_bind, front_slots (Nat.le_of_succ_le hRoom), hx.limbs_eq, hy.limbs_eq,
      hSum, InPlace.liftM_ok, pure_bind, finish_eq (hLength ▸ hRoom), InPlace.set_apply]
  · rw [Limbs.value_row hLow, hValue]
    rfl

theorem setSum_eq (hAlu : alu.Lawful) (hb : b.WellFormed) (hx : x.WellFormed) (hy : y.WellFormed) :
    setSum alu x y b = InPlace.settle b (supply w (max x.size y.size + 1)
      (b.roomEvents (max x.size y.size + 1) (x.isSecure || y.isSecure))
      ((), b.stored (x.isSecure || y.isSecure) (max x.size y.size + 1) (x.value + y.value))) := by
  by_cases hShort : y.size ≤ x.size
  · rw [max_eq_left hShort]
    exact setSum_eq_of_le hAlu hb hx hy hShort
  · have hLess := not_le.mp hShort
    rw [max_eq_right (le_of_lt hLess), setSum_swap hLess,
      setSum_eq_of_le hAlu hb hy hx (le_of_lt hLess), Bool.or_comm, Nat.add_comm y.value]

-- ---------------------------------------------------------------------------
-- Products
-- ---------------------------------------------------------------------------

theorem squareInto_window (hAlu : alu.Lawful) (hx : x.WellFormed) {window : Limbs w}
    (hWindow : window.length = x.size + x.size) :
    Limbs.squareInto alu window (x.slots.take x.size)
      = .ok (Digits.ofNat (x.size + x.size) (x.value * x.value)) := by
  rw [← Nat.two_mul] at hWindow ⊢
  rw [Limbs.squareInto_eq hAlu (by rw [hWindow, hx.length_take]), hx.length_take,
    List.drop_of_length_le (le_of_eq hWindow), List.append_nil]
  rfl

theorem mulInto_window (hAlu : alu.Lawful) (hx : x.WellFormed) (hy : y.WellFormed)
    {window : Limbs w} (hWindow : window.length = x.size + y.size) :
    Limbs.mulInto alu window (x.slots.take x.size) (y.slots.take y.size)
      = .ok (Digits.ofNat (x.size + y.size) (x.value * y.value)) := by
  rw [Limbs.mulInto_eq hAlu (by rw [hWindow, hx.length_take, hy.length_take]), hx.length_take,
    hy.length_take, List.drop_of_length_le (le_of_eq hWindow), List.append_nil]
  rfl

/-- The product of two numbers fits the limbs of both. -/
theorem WellFormed.mul_value_lt (hx : x.WellFormed) (hy : y.WellFormed) :
    x.value * y.value < radix (w.bits * (x.size + y.size)) := by
  rw [radix_mul_add]
  exact Nat.mul_lt_mul'' hx.value_lt hy.value_lt

theorem finish_product (hx : x.WellFormed) (hy : y.WellFormed) {c : Buffer w}
    (hRoom : x.size + y.size ≤ c.capacity) :
    ∃ xs : Limbs w, c.finish (Digits.ofNat (x.size + y.size) (x.value * y.value))
      = .ok (c.filled xs) ∧ xs.length = x.size + y.size ∧ Limbs.value xs = x.value * y.value := by
  have hLength : (Digits.ofNat (x.size + y.size) (x.value * y.value) : Limbs w).length
      = x.size + y.size := Digits.length_ofNat _ _
  refine ⟨Digits.ofNat (x.size + y.size) (x.value * y.value), finish_eq ?_, hLength, ?_⟩
  · rw [hLength]
    exact hRoom
  · exact Digits.value_ofNat_of_lt (hx.mul_value_lt hy)

theorem setSquare_eq (hAlu : alu.Lawful) (hb : b.WellFormed) (hx : x.WellFormed) :
    setSquare alu x b = InPlace.settle b (supply w (x.size + x.size)
      (b.roomEvents (x.size + x.size) x.isSecure)
      ((), b.stored x.isSecure (x.size + x.size) (x.value * x.value))) := by
  have hCount : 2 * x.size < Size.bound := by
    rw [show Size.bound = 2 * memoryBound by decide]
    exact Nat.mul_lt_mul_of_pos_left hx.size_lt (by decide)
  unfold setSquare
  simp only [Size.mul_eq hCount, Nat.two_mul, InPlace.liftM_ok, pure_bind]
  refine makeRoom_bind hb () fun c hRoom => ?_
  obtain ⟨xs, hFinish, hLength, hValue⟩ := finish_product hx hx hRoom
  refine ⟨xs, ?_, hLength, hValue⟩
  simp only [InPlace.get_bind, front_slots hRoom, hx.limbs_eq,
    squareInto_window hAlu hx (length_window hRoom), InPlace.liftM_ok, pure_bind, hFinish,
    InPlace.set_apply]

/-- The buffer that the second factor of a product stands for. -/
def secondFactor (x : Buffer w) : Factor (Buffer w) → Buffer w
  | .same => x
  | .other y => y

/-- The operation in terms of its second factor. -/
theorem setProduct_def (alu : Alu w) (x : Buffer w) (factor : Factor (Buffer w)) :
    setProduct alu x factor = (do
      let n ← Size.add x.size (x.secondFactor factor).size
      makeRoom n (x.isSecure || (x.secondFactor factor).isSecure)
      let b ← get
      let window ← front n b.slots
      let xs ← x.limbs
      let product ←
        if x.size = (x.secondFactor factor).size then do
          let factor ← factorLimbs factor
          Limbs.mulSameInto alu window xs factor
        else do
          let ys ← (x.secondFactor factor).limbs
          Limbs.mulInto alu window xs ys
      set (← b.finish product)) := rfl

theorem mulSameInto_window (hAlu : alu.Lawful) (hx : x.WellFormed) (hy : y.WellFormed)
    {factor : Factor (Buffer w)} (hFactor : x.secondFactor factor = y) (hSame : x.size = y.size)
    {window : Limbs w} (hWindow : window.length = x.size + y.size) :
    ∃ f, factorLimbs factor = .ok f ∧
      Limbs.mulSameInto alu window (x.slots.take x.size) f
        = .ok (Digits.ofNat (x.size + y.size) (x.value * y.value)) := by
  cases factor with
  | same =>
    obtain rfl : x = y := hFactor
    exact ⟨.same, rfl, squareInto_window hAlu hx hWindow⟩
  | other z =>
    obtain rfl : z = y := hFactor
    have hLengths : (x.slots.take x.size).length = (z.slots.take z.size).length := by
      rw [hx.length_take, hy.length_take, hSame]
    refine ⟨.other (z.slots.take z.size), ?_, ?_⟩
    · rw [factorLimbs, hy.limbs_eq]
      rfl
    · rw [Limbs.mulSameInto, require_pos hLengths, ok_bind]
      exact mulInto_window hAlu hx hy hWindow

theorem setProduct_eq (hAlu : alu.Lawful) (hb : b.WellFormed) (hx : x.WellFormed)
    (hy : y.WellFormed) {factor : Factor (Buffer w)} (hFactor : x.secondFactor factor = y) :
    setProduct alu x factor b = InPlace.settle b (supply w (x.size + y.size)
      (b.roomEvents (x.size + y.size) (x.isSecure || y.isSecure))
      ((), b.stored (x.isSecure || y.isSecure) (x.size + y.size) (x.value * y.value))) := by
  have hCount : x.size + y.size < Size.bound :=
    lt_of_lt_of_le (Nat.add_lt_add hx.size_lt hy.size_lt) (by decide)
  simp only [setProduct_def, hFactor, Size.add_eq hCount, InPlace.liftM_ok, pure_bind]
  refine makeRoom_bind hb () fun c hRoom => ?_
  obtain ⟨xs, hFinish, hLength, hValue⟩ := finish_product hx hy hRoom
  refine ⟨xs, ?_, hLength, hValue⟩
  simp only [InPlace.get_bind, front_slots hRoom, hx.limbs_eq, InPlace.liftM_ok, pure_bind]
  by_cases hSame : x.size = y.size
  · obtain ⟨f, hf, hProduct⟩ := mulSameInto_window hAlu hx hy hFactor hSame (length_window hRoom)
    rw [if_pos hSame]
    simp only [hf, hProduct, hFinish, InPlace.liftM_ok, pure_bind, InPlace.set_apply]
  · rw [if_neg hSame]
    simp only [hy.limbs_eq, mulInto_window hAlu hx hy (length_window hRoom), hFinish,
      InPlace.liftM_ok, pure_bind, InPlace.set_apply]

-- ---------------------------------------------------------------------------
-- Differences
-- ---------------------------------------------------------------------------

/-- A difference that wraps around at most once is determined by its equation. -/
theorem eq_of_difference {m x y c low : ℕ} (hy : y < m) (hLow : low < m)
    (h : low + y = x + c * m) : c = (if x < y then 1 else 0) ∧ low = (x + m - y) % m := by
  by_cases hLess : x < y
  · have hc : c = 1 := by
      rcases Nat.lt_trichotomy c 1 with hZero | hOne | hMore
      · rw [Nat.lt_one_iff.mp hZero, Nat.zero_mul] at h
        omega
      · exact hOne
      · have := Nat.mul_le_mul_right m hMore
        omega
    rw [hc, Nat.one_mul] at h
    rw [if_pos hLess, Nat.mod_eq_of_lt (by omega)]
    exact ⟨hc, by omega⟩
  · have hc : c = 0 := by
      by_contra hNot
      have := Nat.mul_le_mul_right m (Nat.pos_of_ne_zero hNot)
      omega
    rw [hc, Nat.zero_mul] at h
    rw [if_neg hLess, show x + m - y = low + m by omega, Nat.add_mod_right, Nat.mod_eq_of_lt hLow]
    exact ⟨hc, rfl⟩

/-- The number in the low limbs of a window, filled up with zeros. -/
theorem minuend_eq {window xs : Limbs w} {n : ℕ} (hWindow : window.length = n)
    (hShort : xs.length ≤ n) :
    ∃ low, overwrite window 0 xs = .ok low ∧
      overwrite low xs.length (List.replicate (n - xs.length) 0)
        = .ok (xs ++ List.replicate (n - xs.length) 0) := by
  have hLength : (xs ++ window.drop xs.length).length = n := by
    rw [List.length_append, List.length_drop, hWindow]
    exact Nat.add_sub_cancel' hShort
  have hRest : xs.length + (List.replicate (n - xs.length) (0 : Limb w)).length = n := by
    rw [List.length_replicate]
    exact Nat.add_sub_cancel' hShort
  refine ⟨xs ++ window.drop xs.length, overwrite_low ?_, ?_⟩
  · rw [hWindow]
    exact hShort
  · rw [overwrite_of_le (le_of_eq (hRest.trans hLength.symm)), List.take_left, hRest,
      List.drop_of_length_le (le_of_eq hLength), List.append_nil]

/-- A difference modulo the radix of the longer number. -/
def differenceFrom (x y : Buffer w) : ℕ :=
  (x.value + radix (w.bits * max x.size y.size) - y.value) % radix (w.bits * max x.size y.size)

/-- The borrow of a difference. -/
def borrowOf (x y : Buffer w) : Limb w := if x.value < y.value then 1 else 0

theorem differenceFrom_lt (x y : Buffer w) :
    x.differenceFrom y < radix (w.bits * max x.size y.size) := Nat.mod_lt _ (radix_pos _)

/-- The difference as the residue of an integer. -/
theorem differenceFrom_eq_emod (x : Buffer w) (hy : y.WellFormed) :
    (x.differenceFrom y : ℤ)
      = (x.value - y.value : ℤ) % (radix (w.bits * max x.size y.size) : ℕ) := by
  have hFits := hy.value_lt_of_size_le (le_max_right x.size y.size)
  have hShift : ((x.value + radix (w.bits * max x.size y.size) - y.value : ℕ) : ℤ)
      = (x.value - y.value : ℤ) + (radix (w.bits * max x.size y.size) : ℕ) := by
    rw [Nat.cast_sub (by omega), Nat.cast_add]
    ring
  rw [differenceFrom, Int.natCast_mod, hShift, Int.add_emod_right]

theorem setDifference_eq (hAlu : alu.Lawful) (hb : b.WellFormed) (hx : x.WellFormed)
    (hy : y.WellFormed) :
    setDifference alu x y b = InPlace.settle b (supply w (max x.size y.size)
      (b.roomEvents (max x.size y.size) (x.isSecure || y.isSecure))
      (x.borrowOf y,
        b.stored (x.isSecure || y.isSecure) (max x.size y.size) (x.differenceFrom y))) := by
  unfold setDifference
  refine makeRoom_bind hb (x.borrowOf y) fun c hRoom => ?_
  have hShort : (x.slots.take x.size).length ≤ max x.size y.size := by
    rw [hx.length_take]
    exact le_max_left ..
  -- the first operand is copied and filled up, then the second is taken away in place
  obtain ⟨low, hLow, hMinuend⟩ := minuend_eq (length_window hRoom) hShort
  rw [hx.length_take] at hMinuend
  have hMinuendLength : (x.slots.take x.size
      ++ List.replicate (max x.size y.size - x.size) (0 : Limb w)).length
        = max x.size y.size := by
    rw [List.length_append, hx.length_take, List.length_replicate]
    exact Nat.add_sub_cancel' (le_max_left ..)
  have hLengths : (y.slots.take y.size).length ≤ (x.slots.take x.size
      ++ List.replicate (max x.size y.size - x.size) (0 : Limb w)).length := by
    rw [hMinuendLength, hy.length_take]
    exact le_max_right ..
  obtain ⟨borrow, difference, hSub, hLength, hValue⟩ := Limbs.sub_exact hAlu hLengths
  have hFits := hy.value_lt_of_size_le (le_max_right x.size y.size)
  have hDifference := Limbs.value_lt difference
  rw [hMinuendLength] at hLength hValue
  rw [hLength] at hDifference
  rw [show Limbs.value (_ ++ _) = x.value from Digits.value_append_zeros _ _] at hValue
  obtain ⟨hBorrow, hDigits⟩ := eq_of_difference hFits hDifference hValue
  have hBorrowOf : borrow = x.borrowOf y := by
    apply BitVec.eq_of_toNat_eq
    rw [hBorrow, borrowOf]
    split
    · exact toNat_one.symm
    · exact toNat_zero.symm
  refine ⟨difference, ?_, hLength, hDigits⟩
  have hFinish : c.finish difference = .ok (c.filled difference) := finish_eq (hLength ▸ hRoom)
  simp only [InPlace.get_bind, front_slots hRoom, hx.limbs_eq, hy.limbs_eq, hLow, hMinuend, hSub,
    hFinish, hBorrowOf, InPlace.liftM_ok, pure_bind, InPlace.set_bind]
  rfl

end LimbArith.Buffer
