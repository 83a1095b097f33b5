import LimbArith.Limbs.Multiply
import LimbArith.Proofs.Limbs.CarryChain
import LimbArith.Proofs.Primitive.Implementation

/-!
# LimbArith — products are exact

A product of arrays is built row by row. A row is written to a window as long as
the longer factor, which slides up by one limb from row to row and holds the
partial sum. The limb right above the window is overwritten by the carry of the
row, so whatever was above the partial sum never matters.

Main results:

* `mulLimbInto_exact`, `mulAddLimb_exact` — one row, with its carry.
* `mulLimbInto_product` — the row without an accumulator: its carry stays below
  the limb, and what it leaves above stays.
* `writeRow_eq` — what a row leaves, by what it leaves of its window.
* `addRow_exact`, `addRows_exact` — what a row, and what all remaining rows, add
  to the partial sum.
* `mulInto_eq` — the product as an equation between arrays.
* `mulInto_product` — the product is never truncated, leaves the limbs above it,
  and depends neither on the order of the factors nor on what it overwrites.
-/

namespace LimbArith.Limbs

variable {w : Width} {alu : Alu w}

-- ---------------------------------------------------------------------------
-- One limb
-- ---------------------------------------------------------------------------

theorem mulStep_exact (hAlu : alu.Lawful) (y x c : Limb w) :
    ∃ s, mulStep alu y x c = .ok s ∧
      s.carry.toNat * radix w.bits + s.limb.toNat = x.toNat * y.toNat + c.toNat := by
  obtain ⟨d, hMul, hValue⟩ := hAlu.mul x y
  have hFits := mul_add_lt (toNat_lt_radix x) (toNat_lt_radix y) (radix_pos w.bits)
    (toNat_lt_radix c)
  rw [Nat.zero_add, ← hValue] at hFits
  obtain ⟨s, hAdd, hSum⟩ := hAlu.addToWide hFits
  refine ⟨s, ?_, by rw [hSum, hValue]⟩
  rw [mulStep, hMul, ok_bind, hAdd]

theorem mulLimbInto_exact (hAlu : alu.Lawful) {result xs : Limbs w} (y : Limb w)
    (hLength : xs.length ≤ result.length) :
    ∃ carry low, mulLimbInto alu result xs y = .ok ⟨carry, low ++ result.drop xs.length⟩ ∧
      low.length = xs.length ∧
      carry.toNat * radix (w.bits * xs.length) + value low = value xs * y.toNat := by
  have hStep : StepAdds (fun _ => True) BitVec.toNat (fun _ x => (id x).toNat * y.toNat)
      (fun _ x carry => mulStep alu y x carry) := by
    intro _ x c _
    obtain ⟨s, hOk, hSum⟩ := mulStep_exact hAlu y x c
    exact ⟨s, hOk, trivial, hSum⟩
  obtain ⟨carry, low, hOk, hLow, -, hValue⟩ := sweepInto_sum hStep hLength (c := 0) trivial
  refine ⟨carry, low, ?_, hLow, ?_⟩
  · rw [mulLimbInto, require_pos hLength, ok_bind, hOk]
  · rw [hValue, total_mul, total_inputs hLength, List.map_id, toNat_zero, Nat.add_zero]

/-- **Products with a limb are exact.** Whatever the limbs, the product answers: a sum of the product
at a position and the running carry always fits two limbs. The carry and the limbs are the exact
product, limbs of the result above the array stay, and the carry is below the factor, so that it is
never the limb of ones. -/
theorem mulLimbInto_product (impl : Implementation w) {result xs : Limbs w} (y : Limb w)
    (hLength : xs.length ≤ result.length) :
    ∃ carry product,
      mulLimbInto impl.alu result xs y = .ok ⟨carry, product ++ result.drop xs.length⟩ ∧
      product.length = xs.length ∧
      carry.toNat * radix (w.bits * xs.length) + value product = value xs * y.toNat ∧
      carry.toNat < max y.toNat 1 ∧ carry ≠ -1 := by
  obtain ⟨carry, product, hOk, hLimbs, hValue⟩ := mulLimbInto_exact impl.lawful y hLength
  have hFactor : 0 < max y.toNat 1 := lt_of_lt_of_le Nat.one_pos (le_max_right ..)
  have hProduct : carry.toNat * radix (w.bits * xs.length) ≤ value xs * max y.toNat 1 :=
    calc carry.toNat * radix (w.bits * xs.length) ≤ value xs * y.toNat := Nat.le.intro hValue
      _ ≤ value xs * max y.toNat 1 := Nat.mul_le_mul_left _ (le_max_left ..)
  have hCarry : carry.toNat < max y.toNat 1 := carry_lt hFactor hProduct
  refine ⟨carry, product, hOk, hLimbs, hValue, hCarry, ?_⟩
  rintro rfl
  have hOnes := toNat_neg_one (w := w)
  have hy := toNat_lt_radix y
  have hRadix := two_lt_radix_bits w
  omega

/-- The largest limbs times the largest limb, in a result with a limb to spare. -/
theorem mulLimbInto_product_largest :
    ([-1, -1] : Limbs .w32).length ≤ ([0, 0, 7] : Limbs .w32).length ∧
      ∃ carry product,
        mulLimbInto (Implementation.portable .w32).alu [0, 0, 7] [-1, -1] (-1)
          = .ok ⟨carry, product ++ [7]⟩ ∧
        carry.toNat * radix 64 + value product
          = value ([-1, -1] : Limbs .w32) * (-1 : Limb .w32).toNat ∧
        carry ≠ -1 := by
  have hLength : ([-1, -1] : Limbs .w32).length ≤ ([0, 0, 7] : Limbs .w32).length := by decide
  obtain ⟨carry, product, hOk, -, hValue, -, hTop⟩ :=
    mulLimbInto_product (.portable .w32) (-1) hLength
  exact ⟨hLength, carry, product, hOk, hValue, hTop⟩

theorem mulAddLimb_exact (hAlu : alu.Lawful) {acc xs : Limbs w} (y : Limb w)
    (hLength : xs.length ≤ acc.length) :
    ∃ carry low, mulAddLimb alu acc xs y = .ok ⟨carry, low ++ acc.drop xs.length⟩ ∧
      low.length = xs.length ∧
      carry.toNat * radix (w.bits * xs.length) + value low
        = value (acc.take xs.length) + value xs * y.toNat := by
  have hStep : StepAdds (fun _ => True) BitVec.toNat
      (fun r x => r.toNat + (id x).toNat * y.toNat) (fun r x carry => alu.mulAdd r x y carry) := by
    intro r x c _
    obtain ⟨s, hOk, hSum⟩ := hAlu.mulAdd r x y c
    exact ⟨s, hOk, trivial, hSum⟩
  obtain ⟨carry, low, hOk, hLow, -, hValue⟩ := sweepInto_sum hStep hLength (c := 0) trivial
  refine ⟨carry, low, ?_, hLow, ?_⟩
  · rw [mulAddLimb, require_pos hLength, ok_bind, hOk]
  · rw [hValue, total_add, total_mul, total_result hLength, total_inputs hLength, List.map_id,
      toNat_zero, Nat.add_zero]

-- ---------------------------------------------------------------------------
-- Rows
-- ---------------------------------------------------------------------------

/-- The value of a row with its carry on top. -/
theorem value_row {low : Limbs w} {c : Limb w} {n : ℕ} (hLow : low.length = n) :
    value (low ++ [c]) = c.toNat * radix (w.bits * n) + value low := by
  rw [value, Digits.value_append, hLow, Digits.value_cons, Digits.value_nil]
  ring

/-- The carry of a row replaces the limb right above the row. -/
theorem put_carry {low result : Limbs w} (c : Limb w) (h : low.length < result.length) :
    put (low ++ result.drop low.length) low.length c
      = .ok (low ++ [c] ++ result.drop (low.length + 1)) := by
  rw [put_of_lt (by rw [List.length_append, List.length_drop]; omega)]
  rw [List.set_append_right _ _ (le_refl low.length), Nat.sub_self, List.drop_eq_getElem_cons h,
    List.set_cons_zero, List.append_assoc]
  rfl

/-- A row leaves in the result what it leaves of its window, with its carry on top. -/
theorem writeRow_eq {row : Limbs w → Checked (Swept w)} {result low : Limbs w} {c : Limb w} {n : ℕ}
    (hRoom : n < result.length) (hRow : row (result.take n) = .ok ⟨c, low⟩)
    (hLow : low.length = n) :
    writeRow n row result = .ok (low ++ [c] ++ result.drop (n + 1)) := by
  subst hLow
  rw [writeRow, front_of_le (le_of_lt hRoom), ok_bind, hRow, ok_bind]
  exact put_carry c hRoom

/-- A row with the value `v`, split where the window of the next row begins. -/
theorem writeRow_split (row : Limbs w → Checked (Swept w)) {result low : Limbs w} {c : Limb w}
    {m n v : ℕ} (hLength : result.length = m + (n + 1)) (hRow : row (result.take m) = .ok ⟨c, low⟩)
    (hLow : low.length = m) (hValue : c.toNat * radix (w.bits * m) + value low = v) :
    ∃ next rest, writeRow m row result = .ok (next :: rest) ∧
      next :: rest = low ++ [c] ++ result.drop (m + 1) ∧ rest.length = m + n ∧
      next.toNat + radix w.bits * value (rest.take m) = v := by
  have hWritten := writeRow_eq (by omega) hRow hLow
  have hTop : (low ++ [c]).length = m + 1 := by rw [List.length_append, hLow]; rfl
  rw [← value_row hLow] at hValue
  cases hSplit : low ++ [c] with
  | nil => simp at hSplit
  | cons next above =>
    rw [hSplit] at hTop hValue hWritten
    have hAbove : above.length = m := Nat.succ.inj hTop
    refine ⟨next, above ++ result.drop (m + 1), hWritten, rfl, ?_, ?_⟩
    · rw [List.length_append, List.length_drop]
      omega
    · rw [List.take_left' hAbove, ← value_cons, hValue]

/-- A row adds its product to the partial sum, its carry goes on top, and the next row finds the sum
one limb up. -/
theorem addRow_exact (hAlu : alu.Lawful) {result xs : Limbs w} (y : Limb w) {n : ℕ}
    (hLength : result.length = xs.length + (n + 1)) :
    ∃ low carry next rest, mulAddLimb alu (result.take xs.length) xs y = .ok ⟨carry, low⟩ ∧
      addRow alu result xs y = .ok (next :: rest) ∧
      next :: rest = low ++ [carry] ++ result.drop (xs.length + 1) ∧
      low.length = xs.length ∧ rest.length = xs.length + n ∧
      next.toNat + radix w.bits * value (rest.take xs.length)
        = value (result.take xs.length) + value xs * y.toNat := by
  have hWindow : xs.length ≤ (result.take xs.length).length :=
    le_of_eq (List.length_take_of_le (by omega)).symm
  obtain ⟨carry, low, hRow, hLow, hSum⟩ := mulAddLimb_exact hAlu y hWindow
  rw [List.drop_take_self, List.append_nil] at hRow
  rw [List.take_take, min_self] at hSum
  obtain ⟨next, rest, hAdd, hSplit, hRest, hValue⟩ :=
    writeRow_split (fun window => mulAddLimb alu window xs y) hLength hRow hLow hSum
  exact ⟨low, carry, next, rest, hRow, hAdd, hSplit, hLow, hRest, hValue⟩

/-- The first row has no partial sum to add to and overwrites its window. -/
theorem mulRow_exact (hAlu : alu.Lawful) {result xs : Limbs w} (y : Limb w) {n : ℕ}
    (hLength : result.length = xs.length + (n + 1)) :
    ∃ next rest, mulRow alu result xs y = .ok (next :: rest) ∧ rest.length = xs.length + n ∧
      next.toNat + radix w.bits * value (rest.take xs.length) = value xs * y.toNat := by
  have hWindow : xs.length ≤ (result.take xs.length).length :=
    le_of_eq (List.length_take_of_le (by omega)).symm
  obtain ⟨carry, low, hRow, hLow, hProduct⟩ := mulLimbInto_exact hAlu y hWindow
  rw [List.drop_take_self, List.append_nil] at hRow
  obtain ⟨next, rest, hMul, -, hRest, hValue⟩ :=
    writeRow_split (fun window => mulLimbInto alu window xs y) hLength hRow hLow hProduct
  exact ⟨next, rest, hMul, hRest, hValue⟩

/-- The rows that remain add their products to the partial sum; no limb of the result above the sum
is read. -/
theorem addRows_exact (hAlu : alu.Lawful) {xs result ys : Limbs w}
    (hLength : result.length = xs.length + ys.length) :
    ∃ product, addRows alu xs result ys = .ok product ∧ product.length = result.length ∧
      value product = value (result.take xs.length) + value xs * value ys := by
  induction ys generalizing result with
  | nil =>
    refine ⟨result, rfl, rfl, ?_⟩
    rw [← show result.length = xs.length from hLength, List.take_length, value_nil,
      Nat.mul_zero, Nat.add_zero]
  | cons y ys ih =>
    -- the lowest limb is done; the window of the other rows starts above it
    obtain ⟨-, -, low, rest, -, hRow, -, -, hRest, hValue⟩ := addRow_exact hAlu y hLength
    obtain ⟨high, hHigh, hHighLength, hHighValue⟩ := ih hRest
    refine ⟨low :: high, ?_, ?_, ?_⟩
    · rw [addRows, hRow]
      simp only [ok_bind, hHigh]
      rfl
    · rw [List.length_cons, hHighLength, hRest, hLength, List.length_cons]
      omega
    · rw [value_cons, value_cons, hHighValue]
      linear_combination hValue

theorem mulRows_exact (hAlu : alu.Lawful) {result xs ys : Limbs w} (y : Limb w)
    (hLength : result.length = xs.length + (ys.length + 1)) :
    ∃ product, mulRows alu result xs y ys = .ok product ∧ product.length = result.length ∧
      value product = value xs * value (y :: ys) := by
  obtain ⟨low, rest, hRow, hRest, hValue⟩ := mulRow_exact hAlu y hLength
  obtain ⟨high, hHigh, hHighLength, hHighValue⟩ := addRows_exact hAlu hRest
  refine ⟨low :: high, ?_, ?_, ?_⟩
  · rw [mulRows, hRow]
    simp only [ok_bind, hHigh]
    rfl
  · rw [List.length_cons, hHighLength]
    omega
  · rw [value_cons, value_cons, hHighValue]
    linear_combination hValue

-- ---------------------------------------------------------------------------
-- The product
-- ---------------------------------------------------------------------------

/-- The product of two values fits the limbs of both factors. -/
theorem mul_value_lt (xs ys : Limbs w) :
    value xs * value ys < radix (w.bits * (xs.length + ys.length)) := by
  rw [radix_mul_add]
  exact Nat.mul_lt_mul'' (value_lt xs) (value_lt ys)

/-- The rows are products with the longer factor, wherever it stands. -/
theorem mulInto_swap {result xs ys : Limbs w} (h : xs.length < ys.length) :
    mulInto alu result xs ys = mulInto alu result ys xs := by
  unfold mulInto
  rw [if_neg (Nat.not_le.mpr h), if_pos (le_of_lt h)]

theorem mulInto_eq_of_le (hAlu : alu.Lawful) {result xs ys : Limbs w}
    (hLong : ys.length ≤ xs.length) (hLength : xs.length + ys.length ≤ result.length) :
    mulInto alu result xs ys =
      .ok (Digits.ofNat (xs.length + ys.length) (value xs * value ys)
        ++ result.drop (xs.length + ys.length)) := by
  unfold mulInto
  rw [if_pos hLong]
  simp only [require_pos hLength, ok_bind]
  cases ys with
  | nil =>
    -- no row is written, so the window is filled with zeros
    rw [value_nil, Nat.mul_zero,
      ← Digits.eq_ofNat List.length_replicate (value_zeros _)]
    rfl
  | cons y rest =>
    have hWindow : (result.take (xs.length + (y :: rest).length)).length
        = xs.length + (rest.length + 1) := List.length_take_of_le hLength
    obtain ⟨product, hOk, hProduct, hValue⟩ := mulRows_exact hAlu y hWindow
    simp only [hOk, ok_bind]
    rw [← Digits.eq_ofNat (hProduct.trans (List.length_take_of_le hLength)) hValue]
    rfl

/-- The product as an equation: the digits of the product, and above them what was there. -/
theorem mulInto_eq (hAlu : alu.Lawful) {result xs ys : Limbs w}
    (hLength : xs.length + ys.length ≤ result.length) :
    mulInto alu result xs ys =
      .ok (Digits.ofNat (xs.length + ys.length) (value xs * value ys)
        ++ result.drop (xs.length + ys.length)) := by
  by_cases hLong : ys.length ≤ xs.length
  · exact mulInto_eq_of_le hAlu hLong hLength
  · have hShort := Nat.not_le.mp hLong
    rw [Nat.add_comm] at hLength
    rw [mulInto_swap hShort, mulInto_eq_of_le hAlu (le_of_lt hShort) hLength,
      Nat.add_comm ys.length, Nat.mul_comm (value ys)]

/-- **Products are exact and never truncated.** Whatever the lengths of the factors and whatever
their product overwrites, the low limbs of the result hold the product, the limbs above are what
they were, and the exchanged factors leave the same limbs. -/
theorem mulInto_product (impl : Implementation w) {result xs ys : Limbs w}
    (hLength : xs.length + ys.length ≤ result.length) :
    ∃ product, mulInto impl.alu result xs ys = .ok product ∧
      product.length = result.length ∧
      value (product.take (xs.length + ys.length)) = value xs * value ys ∧
      product.drop (xs.length + ys.length) = result.drop (xs.length + ys.length) ∧
      mulInto impl.alu result ys xs = .ok product ∧
      ∀ low : Limbs w, low.length = xs.length + ys.length →
        mulInto impl.alu (low ++ result.drop (xs.length + ys.length)) xs ys = .ok product := by
  have hDigits : (Digits.ofNat (xs.length + ys.length) (value xs * value ys) : Limbs w).length
      = xs.length + ys.length := Digits.length_ofNat _ _
  refine ⟨_, mulInto_eq impl.lawful hLength, ?_, ?_, List.drop_left' hDigits, ?_, ?_⟩
  · rw [List.length_append, hDigits, List.length_drop]
    omega
  · rw [List.take_left' hDigits]
    exact Digits.value_ofNat_of_lt (mul_value_lt xs ys)
  · rw [Nat.add_comm] at hLength
    rw [mulInto_eq impl.lawful hLength, Nat.add_comm ys.length, Nat.mul_comm (value ys)]
  · intro low hLow
    have hRoom : xs.length + ys.length
        ≤ (low ++ result.drop (xs.length + ys.length)).length := by
      rw [List.length_append]
      omega
    rw [mulInto_eq impl.lawful hRoom, List.drop_left' hLow]

/-- A product of arrays of two lengths, in a result with a limb to spare. -/
theorem mulInto_product_two_one :
    ([5, 9] : Limbs .w32).length + ([7] : Limbs .w32).length ≤ ([1, 2, 3, 4] : Limbs .w32).length ∧
      ∃ product, mulInto (Implementation.portable .w32).alu [1, 2, 3, 4] [5, 9] [7] = .ok product ∧
        value (product.take 3) = value ([5, 9] : Limbs .w32) * value ([7] : Limbs .w32) ∧
        product.drop 3 = [4] := by
  obtain ⟨product, hOk, -, hValue, hAbove, -⟩ :=
    mulInto_product (.portable .w32) (show ([5, 9] : Limbs .w32).length + ([7] : Limbs .w32).length
      ≤ ([1, 2, 3, 4] : Limbs .w32).length by decide)
  exact ⟨by decide, product, hOk, hValue, hAbove⟩

end LimbArith.Limbs
