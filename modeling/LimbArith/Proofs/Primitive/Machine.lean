import LimbArith.Alu.Machine
import LimbArith.Proofs.Primitive.Lawful

/-!
# LimbArith — the machine primitives are lawful

Each primitive of the machine is a straight-line sequence of instructions. The
instructions that set the carry flag are given names for their two effects —
the wrapped word and the flag — with one exactness law for sums and one for
differences. Running a sequence then is rewriting, and its law is a chain of
these two.

Main results:

* `addCode_run`, `mulAddCode_run` and their kin — what each sequence leaves, from
  any state.
* `Machine.lawful` — all laws of primitives.
-/

namespace LimbArith.Machine

-- ---------------------------------------------------------------------------
-- Flags and words
-- ---------------------------------------------------------------------------

/-- A flag as a word. -/
def flagWord (flag : Bool) : Word := BitVec.ofNat 64 flag.toNat

/-- The word that an addition leaves. -/
def sumWord (x y : Word) (carry : Bool) : Word := x + y + flagWord carry

/-- The carry flag that an addition sets. -/
def sumCarry (x y : Word) (carry : Bool) : Bool := radix 64 ≤ x.toNat + y.toNat + carry.toNat

/-- The word that a subtraction leaves. -/
def differenceWord (x y : Word) (borrow : Bool) : Word := x - y - flagWord borrow

/-- The carry flag that a subtraction sets. -/
def differenceBorrow (x y : Word) (borrow : Bool) : Bool := x.toNat < y.toNat + borrow.toNat

theorem radix_word : radix 64 = 18446744073709551616 := by decide

theorem toNat_flagWord (flag : Bool) : (flagWord flag).toNat = flag.toNat := by
  cases flag <;> rfl

/-- Word and flag of an addition are the sum. -/
theorem sum_exact (x y : Word) (carry : Bool) :
    (sumCarry x y carry).toNat * radix 64 + (sumWord x y carry).toNat
      = x.toNat + y.toNat + carry.toNat := by
  have hx := toNat_lt_radix x
  have hy := toNat_lt_radix y
  have hCarry : carry.toNat ≤ 1 := Bool.toNat_le carry
  rw [sumWord, sumCarry, BitVec.toNat_add, BitVec.toNat_add, toNat_flagWord]
  simp only [radix_word] at *
  by_cases h : 18446744073709551616 ≤ x.toNat + y.toNat + carry.toNat
  · simp only [h, decide_true, Bool.toNat_true]
    omega
  · simp only [h, decide_false, Bool.toNat_false]
    omega

/-- Word and flag of a subtraction are the difference. -/
theorem difference_exact (x y : Word) (borrow : Bool) :
    (differenceWord x y borrow).toNat + (y.toNat + borrow.toNat)
      = x.toNat + (differenceBorrow x y borrow).toNat * radix 64 := by
  have hx := toNat_lt_radix x
  have hy := toNat_lt_radix y
  have hBorrow : borrow.toNat ≤ 1 := Bool.toNat_le borrow
  rw [differenceWord, differenceBorrow, BitVec.toNat_sub, BitVec.toNat_sub, toNat_flagWord]
  simp only [radix_word] at *
  by_cases h : x.toNat < y.toNat + borrow.toNat
  · simp only [h, decide_true, Bool.toNat_true]
    omega
  · simp only [h, decide_false, Bool.toNat_false]
    omega

/-- The low word of a product. -/
def productLow (x y : Word) : Word := BitVec.ofNat 64 (x.toNat * y.toNat)

/-- The high word of a product. -/
def productHigh (x y : Word) : Word := BitVec.ofNat 64 (x.toNat * y.toNat / radix 64)

/-- The two words of a product are the product. -/
theorem product_exact (x y : Word) :
    (productHigh x y).toNat * radix 64 + (productLow x y).toNat = x.toNat * y.toNat := by
  have hHigh : x.toNat * y.toNat / radix 64 < radix 64 :=
    Nat.div_lt_of_lt_mul (Nat.mul_lt_mul'' (toNat_lt_radix x) (toNat_lt_radix y))
  rw [productHigh, productLow, BitVec.toNat_ofNat, BitVec.toNat_ofNat]
  change x.toNat * y.toNat / radix 64 % radix 64 * radix 64 + x.toNat * y.toNat % radix 64 = _
  rw [Nat.mod_eq_of_lt hHigh, Nat.mul_comm]
  exact Nat.div_add_mod _ _

/-- Adding all ones to a flag moves it to the carry flag. -/
theorem sumCarry_flagWord (flag : Bool) : sumCarry (flagWord flag) (-1) false = flag := by
  rw [sumCarry, radix_word]
  cases flag <;> decide

/-- A carry of at most one is a flag. -/
theorem exists_flagWord {c : Word} (hc : c.toNat ≤ 1) : ∃ flag, c = flagWord flag := by
  rcases Nat.le_one_iff_eq_zero_or_eq_one.mp hc with h | h
  · exact ⟨false, BitVec.eq_of_toNat_eq h⟩
  · exact ⟨true, BitVec.eq_of_toNat_eq h⟩

/-- The low byte of a word whose low byte was set to a flag. -/
theorem lowByte_flag (x : Word) (flag : Bool) :
    (x &&& ~~~255 ||| flagWord flag) &&& 255 = flagWord flag := by
  have hCleared : ~~~(255 : Word) &&& 255 = 0#64 := by decide
  have hKept : flagWord flag &&& 255 = flagWord flag := by
    cases flag <;> decide
  rw [BitVec.and_or_distrib_right, BitVec.and_assoc, hCleared, BitVec.and_zero, BitVec.zero_or,
    hKept]

/-- A cleared word whose low byte is set to a flag. -/
theorem cleared_flag (x : Word) (flag : Bool) :
    (x ^^^ x) &&& ~~~255 ||| flagWord flag = flagWord flag := by
  rw [BitVec.xor_self, BitVec.zero_and, BitVec.zero_or]

-- ---------------------------------------------------------------------------
-- Instructions
-- ---------------------------------------------------------------------------

section

variable (s : State) (dst : Register) (src : Source)

theorem exec_add : exec s (.add dst src) = s.result dst
    (sumWord (s.read dst) (src.value s) false) (sumCarry (s.read dst) (src.value s) false) := rfl

theorem exec_adc : exec s (.adc dst src) = s.result dst
    (sumWord (s.read dst) (src.value s) s.carry) (sumCarry (s.read dst) (src.value s) s.carry) :=
  rfl

theorem exec_sub : exec s (.sub dst src) = s.result dst
    (differenceWord (s.read dst) (src.value s) false)
    (differenceBorrow (s.read dst) (src.value s) false) := rfl

theorem exec_sbb : exec s (.sbb dst src) = s.result dst
    (differenceWord (s.read dst) (src.value s) s.carry)
    (differenceBorrow (s.read dst) (src.value s) s.carry) := rfl

theorem exec_setcc (condition : Condition) : exec s (.setcc condition dst) =
    s.write dst (s.read dst &&& ~~~255 ||| flagWord (condition.holds s)) := rfl

theorem exec_xor : exec s (.xor dst src) = s.result dst (s.read dst ^^^ src.value s) false := rfl

theorem exec_test : exec s (.test dst src) =
    { s with carry := false, zero := (s.read dst &&& src.value s) == 0 } := rfl

theorem exec_movzx : exec s (.movzx dst) = s.write dst (s.read dst &&& 255) := rfl

theorem exec_mul : exec s (.mul dst) =
    { s with
      rax := productLow s.rax (s.read dst)
      rdx := productHigh s.rax (s.read dst)
      carry := productHigh s.rax (s.read dst) != 0 } := rfl

end

-- ---------------------------------------------------------------------------
-- Sequences
-- ---------------------------------------------------------------------------

section

variable (s : State)

theorem isNonzeroCode_run : (run isNonzeroCode s).r9 = flagWord (!(s.r8 == 0)) := by
  simp only [run, isNonzeroCode, List.foldl, exec_xor, exec_test, exec_setcc, State.result,
    State.read, State.write, Source.value, Condition.holds, cleared_flag, BitVec.and_self]

theorem isZeroCode_run : (run isZeroCode s).r9 = flagWord (s.r8 == 0) := by
  simp only [run, isZeroCode, List.foldl, exec_xor, exec_test, exec_setcc, State.result,
    State.read, State.write, Source.value, Condition.holds, cleared_flag, BitVec.and_self]

theorem addCode_run : (⟨(run addCode s).r10, (run addCode s).r8⟩ : Carried .w64)
    = ⟨flagWord (sumCarry s.r8 s.r9 false), sumWord s.r8 s.r9 false⟩ := by
  simp only [run, addCode, List.foldl, exec_xor, exec_add, exec_setcc, State.result,
    State.read, State.write, Source.value, Condition.holds, cleared_flag]

theorem subCode_run : (⟨(run subCode s).r10, (run subCode s).r8⟩ : Carried .w64)
    = ⟨flagWord (differenceBorrow s.r8 s.r9 false), differenceWord s.r8 s.r9 false⟩ := by
  simp only [run, subCode, List.foldl, exec_xor, exec_sub, exec_setcc, State.result,
    State.read, State.write, Source.value, Condition.holds, cleared_flag]

theorem addCarryCode_run {flag : Bool} (hFlag : s.r10 = flagWord flag) :
    (⟨(run addCarryCode s).r10, (run addCarryCode s).r8⟩ : Carried .w64)
      = ⟨flagWord (sumCarry s.r8 s.r9 flag), sumWord s.r8 s.r9 flag⟩ := by
  simp only [run, addCarryCode, List.foldl, exec_add, exec_adc, exec_setcc, exec_movzx,
    State.result, State.read, State.write, Source.value, Condition.holds, hFlag,
    sumCarry_flagWord, lowByte_flag]

theorem subBorrowCode_run {flag : Bool} (hFlag : s.r10 = flagWord flag) :
    (⟨(run subBorrowCode s).r10, (run subBorrowCode s).r8⟩ : Carried .w64)
      = ⟨flagWord (differenceBorrow s.r8 s.r9 flag), differenceWord s.r8 s.r9 flag⟩ := by
  simp only [run, subBorrowCode, List.foldl, exec_add, exec_sbb, exec_setcc, exec_movzx,
    State.result, State.read, State.write, Source.value, Condition.holds, hFlag,
    sumCarry_flagWord, lowByte_flag]

theorem mulCode_run : (⟨(run mulCode s).rdx, (run mulCode s).rax⟩ : WideLimb .w64)
    = ⟨productHigh s.rax s.r8, productLow s.rax s.r8⟩ := by
  simp only [run, mulCode, List.foldl, exec_mul, State.read]

/-- The two additions of `mulAdd`, each followed by its carry into the high word. -/
theorem mulAddCode_run :
    let first := sumWord (productLow s.rax s.r8) s.r9 false
    let high := sumWord (productHigh s.rax s.r8) 0 (sumCarry (productLow s.rax s.r8) s.r9 false)
    (⟨(run mulAddCode s).rdx, (run mulAddCode s).rax⟩ : Carried .w64)
      = ⟨sumWord high 0 (sumCarry first s.r10 false), sumWord first s.r10 false⟩ := by
  simp only [run, mulAddCode, List.foldl, exec_mul, exec_add, exec_adc, State.result,
    State.read, State.write, Source.value]

/-- The two subtractions of `mulSub`, each followed by its borrow into the high word. -/
theorem mulSubCode_run :
    let first := differenceWord s.r9 (productLow s.rax s.r8) false
    let high := sumWord (productHigh s.rax s.r8) 0
      (differenceBorrow s.r9 (productLow s.rax s.r8) false)
    (⟨(run mulSubCode s).rdx, (run mulSubCode s).r9⟩ : Carried .w64)
      = ⟨sumWord high 0 (differenceBorrow first s.r10 false),
          differenceWord first s.r10 false⟩ := by
  simp only [run, mulSubCode, List.foldl, exec_mul, exec_sub, exec_adc, State.result,
    State.read, State.write, Source.value]

end

-- ---------------------------------------------------------------------------
-- Primitives
-- ---------------------------------------------------------------------------

theorem isNonzero_run (x : Limb .w64) : alu.isNonzero x = flagWord (!(x == 0)) :=
  isNonzeroCode_run { r8 := x }

theorem isZero_run (x : Limb .w64) : alu.isZero x = flagWord (x == 0) := isZeroCode_run { r8 := x }

theorem add_run (x y : Limb .w64) :
    alu.add x y = ⟨flagWord (sumCarry x y false), sumWord x y false⟩ :=
  addCode_run { r8 := x, r9 := y }

theorem sub_run (x y : Limb .w64) :
    alu.sub x y = ⟨flagWord (differenceBorrow x y false), differenceWord x y false⟩ :=
  subCode_run { r8 := x, r9 := y }

theorem addCarry_run (x y : Limb .w64) (flag : Bool) : alu.addCarry x y (flagWord flag) =
    .ok ⟨flagWord (sumCarry x y flag), sumWord x y flag⟩ := by
  have hFlag : (flagWord flag).toNat ≤ 1 := toNat_flagWord flag ▸ Bool.toNat_le flag
  simp only [alu, addCarry, require_pos hFlag, ok_bind]
  exact congrArg Except.ok (addCarryCode_run { r8 := x, r9 := y, r10 := flagWord flag } rfl)

theorem subBorrow_run (x y : Limb .w64) (flag : Bool) : alu.subBorrow x y (flagWord flag) =
    .ok ⟨flagWord (differenceBorrow x y flag), differenceWord x y flag⟩ := by
  have hFlag : (flagWord flag).toNat ≤ 1 := toNat_flagWord flag ▸ Bool.toNat_le flag
  simp only [alu, subBorrow, require_pos hFlag, ok_bind]
  exact congrArg Except.ok (subBorrowCode_run { r8 := x, r9 := y, r10 := flagWord flag } rfl)

theorem mul_run (x y : Limb .w64) : alu.mul x y = .ok ⟨productHigh x y, productLow x y⟩ :=
  congrArg Except.ok (mulCode_run { rax := x, r8 := y })

theorem mulAdd_run (acc x y c : Limb .w64) :
    let first := sumWord (productLow x y) acc false
    let high := sumWord (productHigh x y) 0 (sumCarry (productLow x y) acc false)
    alu.mulAdd acc x y c =
      .ok ⟨sumWord high 0 (sumCarry first c false), sumWord first c false⟩ :=
  congrArg Except.ok (mulAddCode_run { rax := x, r8 := y, r9 := acc, r10 := c })

theorem mulSub_run (acc x y c : Limb .w64) :
    let first := differenceWord acc (productLow x y) false
    let high := sumWord (productHigh x y) 0 (differenceBorrow acc (productLow x y) false)
    alu.mulSub acc x y c =
      .ok ⟨sumWord high 0 (differenceBorrow first c false), differenceWord first c false⟩ :=
  congrArg Except.ok (mulSubCode_run { rax := x, r8 := y, r9 := acc, r10 := c })

-- ---------------------------------------------------------------------------
-- Laws
-- ---------------------------------------------------------------------------

theorem flagWord_eq_ite (x : Word) : flagWord (x == 0) = if x = 0 then 1 else 0 := by
  by_cases h : x = 0
  · rw [if_pos h, beq_iff_eq.mpr h]
    rfl
  · rw [if_neg h, beq_eq_false_iff_ne.mpr h]
    rfl

theorem flagWord_not_eq_ite (x : Word) : flagWord (!(x == 0)) = if x = 0 then 0 else 1 := by
  by_cases h : x = 0
  · rw [if_pos h, beq_iff_eq.mpr h]
    rfl
  · rw [if_neg h, beq_eq_false_iff_ne.mpr h]
    rfl

/-- Two carries added to the high digit of a number below `B * B` do not wrap. -/
theorem high_exact {low n : ℕ} {x : Word} {c₁ c₂ : Bool}
    (hTotal : (x.toNat + c₁.toNat + c₂.toNat) * radix 64 + low = n)
    (hn : n < radix 64 * radix 64) :
    (sumWord (sumWord x 0 c₁) 0 c₂).toNat = x.toNat + c₁.toNat + c₂.toNat := by
  have hHigh := high_lt_of_value_lt hTotal hn
  have hFirst : (x + flagWord c₁).toNat = x.toNat + c₁.toNat := by
    rw [BitVec.toNat_add_of_lt] <;> rw [toNat_flagWord]
    exact lt_of_le_of_lt (Nat.le_add_right _ _) hHigh
  have hZero : ∀ y : Word, y + 0 = y := fun y => BitVec.add_zero y
  rw [sumWord, sumWord, hZero, hZero, BitVec.toNat_add_of_lt] <;> rw [hFirst, toNat_flagWord]
  exact hHigh

theorem mulAdd_exact (acc x y c : Limb .w64) : ∃ s, alu.mulAdd acc x y c = .ok s ∧
    s.carry.toNat * radix 64 + s.limb.toNat = acc.toNat + x.toNat * y.toNat + c.toNat := by
  refine ⟨_, mulAdd_run acc x y c, ?_⟩
  set first := sumWord (productLow x y) acc false with hFirstDef
  have hFirst := sum_exact (productLow x y) acc false
  have hSecond := sum_exact first c false
  rw [Bool.toNat_false, Nat.add_zero] at hFirst hSecond
  have hTotal : ((productHigh x y).toNat + (sumCarry (productLow x y) acc false).toNat
      + (sumCarry first c false).toNat) * radix 64 + (sumWord first c false).toNat
      = acc.toNat + x.toNat * y.toNat + c.toNat := by
    linear_combination hFirst + hSecond + product_exact x y
  have hFits := mul_add_lt (toNat_lt_radix x) (toNat_lt_radix y) (toNat_lt_radix acc)
    (toNat_lt_radix c)
  rw [high_exact hTotal hFits, hTotal]

theorem mulSub_exact (acc x y c : Limb .w64) : ∃ s, alu.mulSub acc x y c = .ok s ∧
    s.limb.toNat + (x.toNat * y.toNat + c.toNat) = acc.toNat + s.carry.toNat * radix 64 := by
  refine ⟨_, mulSub_run acc x y c, ?_⟩
  set first := differenceWord acc (productLow x y) false with hFirstDef
  have hFirst := difference_exact acc (productLow x y) false
  have hSecond := difference_exact first c false
  rw [Bool.toNat_false, Nat.add_zero] at hFirst hSecond
  have hTotal : ((productHigh x y).toNat + (differenceBorrow acc (productLow x y) false).toNat
      + (differenceBorrow first c false).toNat) * radix 64 + acc.toNat
      = (differenceWord first c false).toNat + (x.toNat * y.toNat + c.toNat) := by
    linear_combination product_exact x y - hFirst - hSecond
  -- the borrows add up to the high word of a sum that fits, with the difference as a summand
  have hFits := mul_add_lt (toNat_lt_radix x) (toNat_lt_radix y)
    (toNat_lt_radix (differenceWord first c false)) (toNat_lt_radix c)
  rw [Nat.add_assoc] at hFits
  rw [high_exact hTotal hFits, ← hTotal, Nat.add_comm]

/--
**The machine primitives are lawful.**
-/
theorem lawful : alu.Lawful where
  isNonzero x := by
    rw [isNonzero_run, flagWord_not_eq_ite]
  isZero x := by
    rw [isZero_run, flagWord_eq_ite]
  add x y := by
    rw [add_run, toNat_flagWord]
    exact sum_exact x y false
  addCarry x y c hc := by
    obtain ⟨flag, rfl⟩ := exists_flagWord hc
    refine ⟨_, addCarry_run x y flag, ?_⟩
    rw [toNat_flagWord, toNat_flagWord]
    exact sum_exact x y flag
  addCarry_refused x y c hc := by
    show addCarry x y c = _
    rw [addCarry, require_neg (by omega), error_bind]
  sub x y := by
    rw [sub_run, toNat_flagWord]
    exact difference_exact x y false
  subBorrow x y c hc := by
    obtain ⟨flag, rfl⟩ := exists_flagWord hc
    refine ⟨_, subBorrow_run x y flag, ?_⟩
    rw [toNat_flagWord, toNat_flagWord]
    exact difference_exact x y flag
  subBorrow_refused x y c hc := by
    show subBorrow x y c = _
    rw [subBorrow, require_neg (by omega), error_bind]
  mul x y := ⟨_, mul_run x y, product_exact x y⟩
  mulAdd := mulAdd_exact
  mulSub := mulSub_exact

end LimbArith.Machine
