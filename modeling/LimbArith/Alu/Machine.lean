import LimbArith.Alu.Basic
import LimbArith.Machine

/-!
# LimbArith — primitives as machine code

The primitives for 64-bit limbs as straight-line sequences of machine instructions. Sums and
differences leave their carry in a flag, from where it is moved to a register; a carry that comes in
is moved to the flag by adding all ones to it.
-/

namespace LimbArith.Machine

/-! ## Sequences -/

/-- Whether `r8` is not zero, into `r9`. -/
def isNonzeroCode : List Instruction :=
  [.xor .r9 (.register .r9), .test .r8 (.register .r8), .setcc .notZero .r9]

/-- Whether `r8` is zero, into `r9`. -/
def isZeroCode : List Instruction :=
  [.xor .r9 (.register .r9), .test .r8 (.register .r8), .setcc .zero .r9]

/-- The sum of `r8` and `r9` into `r8`, its carry into `r10`. -/
def addCode : List Instruction :=
  [.xor .r10 (.register .r10), .add .r8 (.register .r9), .setcc .carry .r10]

/-- The sum of `r8`, `r9` and the carry in `r10` into `r8`, its carry into `r10`. -/
def addCarryCode : List Instruction :=
  [.add .r10 (.immediate (-1)), .adc .r8 (.register .r9), .setcc .carry .r10, .movzx .r10]

/-- The difference of `r8` and `r9` into `r8`, its borrow into `r10`. -/
def subCode : List Instruction :=
  [.xor .r10 (.register .r10), .sub .r8 (.register .r9), .setcc .carry .r10]

/-- The difference of `r8` and `r9`, less the borrow in `r10`, into `r8`, its borrow into `r10`. -/
def subBorrowCode : List Instruction :=
  [.add .r10 (.immediate (-1)), .sbb .r8 (.register .r9), .setcc .carry .r10, .movzx .r10]

/-- The product of `rax` and `r8` into `rdx` and `rax`. -/
def mulCode : List Instruction := [.mul .r8]

/-- The product of `rax` and `r8`, plus `r9` and `r10`, into `rdx` and `rax`. -/
def mulAddCode : List Instruction :=
  [.mul .r8, .add .rax (.register .r9), .adc .rdx (.immediate 0),
    .add .rax (.register .r10), .adc .rdx (.immediate 0)]

/-- The product of `rax` and `r8` and then `r10` subtracted from `r9`, the borrow into `rdx`. -/
def mulSubCode : List Instruction :=
  [.mul .r8, .sub .r9 (.register .rax), .adc .rdx (.immediate 0),
    .sub .r9 (.register .r10), .adc .rdx (.immediate 0)]

/-! ## Primitives -/

/-- The sum of two limbs and a carry. -/
def addCarry (x y carry : Limb .w64) : Checked (Carried .w64) := do
  require (carry.toNat ≤ 1) .carryTooLarge
  let s := run addCarryCode { r8 := x, r9 := y, r10 := carry }
  pure ⟨s.r10, s.r8⟩

/-- The difference of two limbs, less a borrow. -/
def subBorrow (x y borrow : Limb .w64) : Checked (Carried .w64) := do
  require (borrow.toNat ≤ 1) .carryTooLarge
  let s := run subBorrowCode { r8 := x, r9 := y, r10 := borrow }
  pure ⟨s.r10, s.r8⟩

/-- The primitives that the machine runs. -/
def alu : Alu .w64 where
  isNonzero x := (run isNonzeroCode { r8 := x }).r9
  isZero x := (run isZeroCode { r8 := x }).r9
  add x y :=
    let s := run addCode { r8 := x, r9 := y }
    ⟨s.r10, s.r8⟩
  addCarry := addCarry
  sub x y :=
    let s := run subCode { r8 := x, r9 := y }
    ⟨s.r10, s.r8⟩
  subBorrow := subBorrow
  mul x y :=
    let s := run mulCode { rax := x, r8 := y }
    pure ⟨s.rdx, s.rax⟩
  mulAdd acc x y carry :=
    let s := run mulAddCode { rax := x, r8 := y, r9 := acc, r10 := carry }
    pure ⟨s.rdx, s.rax⟩
  mulSub acc x y borrow :=
    let s := run mulSubCode { rax := x, r8 := y, r9 := acc, r10 := borrow }
    pure ⟨s.rdx, s.r9⟩

end LimbArith.Machine
