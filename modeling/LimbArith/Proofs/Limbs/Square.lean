import LimbArith.Limbs.Square
import LimbArith.Proofs.Limbs.Product
import LimbArith.Proofs.Limbs.Shift

/-!
# LimbArith — squares are products

The square of `x + B * v` is `x ^ 2 + 2 * B * x * v + B ^ 2 * v ^ 2`. The loop
over the cross products adds up the middle terms of all tails, the shift doubles
them, and the chain over the squares of the limbs adds the first terms. None of
the three sums is more than the square, so nothing is carried out of the array.

Main results:

* `value_mul_self` — the square as its diagonal and twice its cross products.
* `addCrossRows_exact`, `addSquares_exact` — the two loops.
* `squareInto_eq` — the square as an equation between arrays.
* `squareInto_eq_mulInto` — the square is the product of the array with itself,
  limb by limb, and every row of it carries into a limb that is not in use yet.
-/

namespace LimbArith.Limbs

variable {w : Width} {alu : Alu w}

-- ---------------------------------------------------------------------------
-- The parts of a square
-- ---------------------------------------------------------------------------

/-- The sum of the products of different limbs, each pair taken once. -/
def crossSum : Limbs w → ℕ
  | [] => 0
  | x :: xs => radix w.bits * (x.toNat * value xs + radix w.bits * crossSum xs)

/-- The sum of the squares of the limbs. -/
def squareSum : Limbs w → ℕ
  | [] => 0
  | x :: xs => x.toNat * x.toNat + radix w.bits * (radix w.bits * squareSum xs)

theorem value_mul_self (xs : Limbs w) :
    value xs * value xs = squareSum xs + 2 * crossSum xs := by
  induction xs with
  | nil => rfl
  | cons x xs ih =>
    rw [value_cons, squareSum, crossSum]
    linear_combination radix w.bits * radix w.bits * ih

/-- A square fits twice the limbs. -/
theorem mul_self_lt (xs : Limbs w) : value xs * value xs < radix (w.bits * (2 * xs.length)) := by
  rw [Nat.two_mul]
  exact mul_value_lt xs xs

-- ---------------------------------------------------------------------------
-- Cross products
-- ---------------------------------------------------------------------------

/-- All rows of cross products: the limbs of the result above the partial sum are overwritten
without being read. -/
theorem addCrossRows_exact (hAlu : alu.Lawful) {result xs : Limbs w}
    (hLength : result.length = 2 * xs.length) :
    ∃ out, addCrossRows alu result xs = .ok out ∧ out.length = result.length ∧
      value out = value (result.take xs.length) + crossSum xs := by
  induction xs generalizing result with
  | nil =>
    refine ⟨result, ?_, rfl, ?_⟩
    · cases result <;> rfl
    · rw [List.eq_nil_of_length_eq_zero hLength]
      rfl
  | cons x xs ih =>
    cases result with
    | nil => simp at hLength
    | cons low above =>
      rw [List.length_cons, List.length_cons] at hLength
      have hAbove : above.length = xs.length + (xs.length + 1) := by omega
      -- this row starts one limb up, and the next row two
      obtain ⟨-, -, next, rest, -, hRow, -, -, hRest, hValue⟩ := addRow_exact hAlu x hAbove
      rw [← Nat.two_mul] at hRest
      obtain ⟨high, hHigh, hHighLength, hHighValue⟩ := ih hRest
      refine ⟨low :: next :: high, ?_, ?_, ?_⟩
      · rw [addCrossRows, hRow]
        simp only [ok_bind, hHigh]
        rfl
      · rw [List.length_cons, List.length_cons, List.length_cons, hHighLength]
        omega
      · rw [List.length_cons, List.take_succ_cons, value_cons, value_cons, value_cons, crossSum,
          hHighValue]
        linear_combination radix w.bits * hValue

/-- The loop over the cross products, left after its first `k` rows. -/
def firstCrossRows (alu : Alu w) : (k : ℕ) → (result xs : Limbs w) → Checked (Limbs w)
  | 0, result, _ => pure result
  | _ + 1, result, [] => pure result
  | _ + 1, [], _ :: _ => throw .outOfRange
  | k + 1, low :: above, x :: xs => do
    match ← addRow alu above xs x with
    | [] => throw .outOfRange
    | next :: rest =>
      let high ← firstCrossRows alu k rest xs
      pure (low :: next :: high)

/-- There are as many rows as limbs. -/
theorem firstCrossRows_all (result xs : Limbs w) :
    firstCrossRows alu xs.length result xs = addCrossRows alu result xs := by
  induction xs generalizing result with
  | nil => cases result <;> rfl
  | cons x xs ih =>
    cases result with
    | nil => rfl
    | cons low above =>
      rw [List.length_cons, firstCrossRows, addCrossRows]
      cases addRow alu above xs x with
      | error e => rfl
      | ok row =>
        cases row with
        | nil => rfl
        | cons next rest =>
          show (firstCrossRows alu xs.length rest xs >>= fun high => pure (low :: next :: high)) = _
          rw [ih]
          rfl

/-- Row `k` has the limbs from `2 * k + 1` up to, not including, `xs.length + k` as its window, and
its carry goes to the limb `xs.length + k`, which no row before it has touched. -/
theorem firstCrossRows_succ (hAlu : alu.Lawful) {result xs : Limbs w} {k : ℕ}
    (hLength : result.length = 2 * xs.length) (hk : k < xs.length) :
    ∃ before row carry, firstCrossRows alu k result xs = .ok before ∧
      before.drop (xs.length + k) = result.drop (xs.length + k) ∧
      mulAddLimb alu ((before.take (xs.length + k)).drop (2 * k + 1)) (xs.drop (k + 1)) xs[k]
        = .ok ⟨carry, row⟩ ∧
      firstCrossRows alu (k + 1) result xs
        = .ok (before.take (2 * k + 1) ++ (row ++ [carry] ++ result.drop (xs.length + k + 1))) := by
  induction k generalizing result xs with
  | zero =>
    match result, xs, hLength, hk with
    | [], _ :: _, hLength, _ => simp at hLength
    | low :: above, x :: xs, hLength, _ =>
      have hAbove : above.length = xs.length + (xs.length + 1) := by
        simp only [List.length_cons] at hLength
        omega
      obtain ⟨row, carry, next, rest, hRow, hAdd, hSplit, -⟩ := addRow_exact hAlu x hAbove
      refine ⟨low :: above, row, carry, rfl, rfl, hRow, ?_⟩
      rw [firstCrossRows, hAdd]
      show Except.ok (low :: next :: rest) = _
      rw [hSplit]
      rfl
  | succ k ih =>
    match result, xs, hLength, hk with
    | [], _ :: _, hLength, _ => simp at hLength
    | low :: above, x :: xs, hLength, hk =>
      have hAbove : above.length = xs.length + (xs.length + 1) := by
        simp only [List.length_cons] at hLength
        omega
      obtain ⟨first, top, next, rest, -, hAdd, hSplit, hFirst, hRest, -⟩ :=
        addRow_exact hAlu x hAbove
      rw [← Nat.two_mul] at hRest
      -- row `k + 1` of this array is row `k` of the rest, in a result two limbs up
      obtain ⟨before, row, carry, hBefore, hUntouched, hRow, hAfter⟩ :=
        ih hRest (Nat.lt_of_succ_lt_succ hk)
      -- the first row ends below its carry, so everything above is as it was
      have hKept : rest.drop xs.length = above.drop (xs.length + 1) := by
        have hRowLength : (first ++ [top]).length = xs.length + 1 := by
          rw [List.length_append, hFirst]
          rfl
        rw [← List.drop_succ_cons (a := next), hSplit, List.drop_left' hRowLength]
      have hSame : ∀ j, rest.drop (xs.length + j) = above.drop (xs.length + 1 + j) := by
        intro j
        rw [← List.drop_drop, hKept, List.drop_drop]
      have hIndex : (x :: xs).length + (k + 1) = xs.length + 1 + k + 1 := by
        rw [List.length_cons]
        omega
      have hShift : xs.length + 1 + k + 1 = xs.length + k + 2 := by omega
      refine ⟨low :: next :: before, row, carry, ?_, ?_, ?_, ?_⟩
      · rw [firstCrossRows, hAdd]
        simp only [ok_bind, hBefore]
        rfl
      · rw [hIndex, List.drop_succ_cons, List.drop_succ_cons, ← hSame, ← hUntouched,
          Nat.add_right_comm]
        rfl
      · rw [hIndex, hShift]
        exact hRow
      · rw [firstCrossRows, hAdd, hIndex]
        simp only [ok_bind, hAfter]
        rw [List.drop_succ_cons, Nat.add_assoc (xs.length + 1), ← hSame]
        rfl

-- ---------------------------------------------------------------------------
-- Squares of limbs
-- ---------------------------------------------------------------------------

theorem addSquares_exact (hAlu : alu.Lawful) {result xs : Limbs w} {c : Limb w}
    (hLength : result.length = 2 * xs.length) (hc : c.toNat ≤ 1) :
    ∃ carry out, addSquares alu result xs c = .ok ⟨carry, out⟩ ∧ out.length = result.length ∧
      carry.toNat * radix (w.bits * result.length) + value out
        = value result + squareSum xs + c.toNat := by
  induction xs generalizing result c with
  | nil =>
    rw [List.eq_nil_of_length_eq_zero hLength]
    refine ⟨c, [], rfl, rfl, ?_⟩
    simp only [List.length_nil, Nat.mul_zero, radix_zero, value_nil, squareSum]
    omega
  | cons x xs ih =>
    match result, hLength with
    | low :: high :: rest, hLength =>
      have hRest : rest.length = 2 * xs.length := by
        simp only [List.length_cons] at hLength
        omega
      -- the square of one limb is added to two limbs of the result
      obtain ⟨square, hMul, hSquare⟩ := hAlu.mul x x
      obtain ⟨first, hFirst, hFirstCarry, hFirstSum⟩ := hAlu.addCarry_exact low square.low hc
      obtain ⟨second, hSecond, hSecondCarry, hSecondSum⟩ :=
        hAlu.addCarry_exact high square.high hFirstCarry
      obtain ⟨carry, out, hAbove, hOut, hValue⟩ := ih hRest hSecondCarry
      refine ⟨carry, first.limb :: second.limb :: out, ?_, ?_, ?_⟩
      · rw [addSquares, hMul]
        simp only [ok_bind, hFirst, hSecond, hAbove]
        rfl
      · rw [List.length_cons, List.length_cons, List.length_cons, List.length_cons, hOut]
      · rw [WideLimb.value] at hSquare
        rw [List.length_cons, List.length_cons, radix_mul_succ, radix_mul_succ, value_cons,
          value_cons, value_cons, value_cons, squareSum]
        linear_combination hSquare + hFirstSum + radix w.bits * hSecondSum
          + radix w.bits * radix w.bits * hValue

-- ---------------------------------------------------------------------------
-- The square
-- ---------------------------------------------------------------------------

/-- A sum that fits the array carries nothing out of it. -/
theorem carry_eq_zero {c : Limb w} {low total n : ℕ} (hSum : c.toNat * radix n + low = total)
    (hFits : total < radix n) : c = 0 := by
  have hZero : c.toNat = 0 := by
    by_contra hNot
    have hLarge : radix n ≤ c.toNat * radix n :=
      Nat.le_mul_of_pos_left _ (Nat.pos_of_ne_zero hNot)
    omega
  exact BitVec.eq_of_toNat_eq hZero

theorem squareInto_eq (hAlu : alu.Lawful) {result xs : Limbs w}
    (hLength : 2 * xs.length ≤ result.length) :
    squareInto alu result xs =
      .ok (Digits.ofNat (2 * xs.length) (value xs * value xs) ++ result.drop (2 * xs.length)) := by
  have hParts := value_mul_self xs
  have hFits := mul_self_lt xs
  obtain ⟨cross, hCross, hCrossLength, hCrossValue⟩ := addCrossRows_exact hAlu
    (show (List.replicate (2 * xs.length) (0 : Limb w)).length = 2 * xs.length from
      List.length_replicate)
  rw [List.length_replicate] at hCrossLength
  rw [List.take_replicate, value_zeros, Nat.zero_add] at hCrossValue
  -- twice the cross products are at most the square
  obtain ⟨out, doubled, hDoubled, hDoubledLength, hDoubledValue⟩ :=
    shiftLeft_exact (show 1 < w.bits by cases w <;> decide) cross
  rw [hCrossLength] at hDoubledLength
  rw [hCrossLength, hCrossValue, Nat.pow_one] at hDoubledValue
  have hOut : out = 0 := carry_eq_zero hDoubledValue (by omega)
  rw [hOut, toNat_zero, Nat.zero_mul, Nat.zero_add] at hDoubledValue
  -- with the squares of the limbs they are the square
  obtain ⟨carry, square, hSquare, hSquareLength, hSquareValue⟩ :=
    addSquares_exact hAlu hDoubledLength toNat_zero_le_one
  rw [hDoubledLength] at hSquareLength
  rw [hDoubledLength, hDoubledValue, toNat_zero] at hSquareValue
  have hCarry : carry = 0 := carry_eq_zero hSquareValue (by omega)
  rw [hCarry, toNat_zero, Nat.zero_mul, Nat.zero_add] at hSquareValue
  rw [← Digits.eq_ofNat hSquareLength (show Digits.value square = _ from hSquareValue.trans
    (by omega))]
  simp only [squareInto, require_pos hLength, ok_bind, hCross, hDoubled, require_pos hOut, hSquare,
    require_pos hCarry]
  rfl

/-- **Squares are products, limb by limb.** The square leaves the very limbs that the product of the
array with itself leaves, so it makes no difference which of the two is taken for a product of an
array with an equal one. Nothing is shifted or carried out on the way: no row of cross products,
whatever the array it adds to, carries into a limb that another row before it has written. -/
theorem squareInto_eq_mulInto (impl : Implementation w) {result xs : Limbs w}
    (hLength : 2 * xs.length ≤ result.length) :
    (∃ square, squareInto impl.alu result xs = .ok square ∧
      mulInto impl.alu result xs xs = .ok square ∧
      square.length = result.length ∧
      value (square.take (2 * xs.length)) = value xs * value xs ∧
      square.drop (2 * xs.length) = result.drop (2 * xs.length)) ∧
    mulSameInto impl.alu result xs .same = mulSameInto impl.alu result xs (.other xs) ∧
    ∀ start : Limbs w, start.length = 2 * xs.length →
      firstCrossRows impl.alu xs.length start xs = addCrossRows impl.alu start xs ∧
      ∀ k, ∀ hk : k < xs.length,
        ∃ before row carry, firstCrossRows impl.alu k start xs = .ok before ∧
          before.drop (xs.length + k) = start.drop (xs.length + k) ∧
          mulAddLimb impl.alu ((before.take (xs.length + k)).drop (2 * k + 1)) (xs.drop (k + 1))
              xs[k] = .ok ⟨carry, row⟩ ∧
          firstCrossRows impl.alu (k + 1) start xs
            = .ok (before.take (2 * k + 1) ++ (row ++ [carry] ++
                start.drop (xs.length + k + 1))) := by
  have hDigits : (Digits.ofNat (2 * xs.length) (value xs * value xs) : Limbs w).length
      = 2 * xs.length := Digits.length_ofNat _ _
  have hSquare := squareInto_eq impl.lawful hLength
  have hProduct : mulInto impl.alu result xs xs = squareInto impl.alu result xs := by
    rw [Nat.two_mul] at hLength hSquare
    rw [hSquare, mulInto_eq impl.lawful hLength]
  refine ⟨⟨_, hSquare, hProduct.trans hSquare, ?_, ?_, List.drop_left' hDigits⟩, ?_, ?_⟩
  · rw [List.length_append, hDigits, List.length_drop]
    omega
  · rw [List.take_left' hDigits]
    exact Digits.value_ofNat_of_lt (mul_self_lt xs)
  · rw [mulSameInto, mulSameInto, require_pos rfl, ok_bind, hProduct]
  · intro start hStart
    refine ⟨firstCrossRows_all start xs, ?_⟩
    intro k hk
    exact firstCrossRows_succ impl.lawful hStart hk

/-- The square of two limbs in a result with a limb to spare. -/
theorem squareInto_eq_mulInto_two :
    2 * ([5, 9] : Limbs .w32).length ≤ ([1, 2, 3, 4, 6] : Limbs .w32).length ∧
      ∃ square, squareInto (Implementation.portable .w32).alu [1, 2, 3, 4, 6] [5, 9] = .ok square ∧
        mulInto (Implementation.portable .w32).alu [1, 2, 3, 4, 6] [5, 9] [5, 9] = .ok square ∧
        square.drop 4 = [6] := by
  obtain ⟨⟨square, hSquare, hProduct, -, -, hAbove⟩, -, -⟩ :=
    squareInto_eq_mulInto (.portable .w32) (show 2 * ([5, 9] : Limbs .w32).length
      ≤ ([1, 2, 3, 4, 6] : Limbs .w32).length by decide)
  exact ⟨by decide, square, hSquare, hProduct, hAbove⟩

end LimbArith.Limbs
