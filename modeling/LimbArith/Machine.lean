import LimbArith.Limb

/-!
# LimbArith — a 64-bit machine

The part of the x86-64 integer instruction set that carry chains need: a few general registers, the
carry and the zero flag, and the instructions that move values between them.

* `Machine.State` — registers and flags.
* `Machine.Instruction` — the instructions; `exec` is their meaning.
* `Machine.run` — a straight-line sequence.
-/

namespace LimbArith.Machine

/-- The contents of a register. -/
abbrev Word : Type := BitVec 64

/-- The registers. A product is taken with `rax` and leaves its upper word in `rdx`; the others are
general. -/
inductive Register where
  | rax
  | rdx
  | r8
  | r9
  | r10
  deriving DecidableEq, Repr

/-- Registers and flags. -/
structure State where
  rax : Word := 0
  rdx : Word := 0
  r8 : Word := 0
  r9 : Word := 0
  r10 : Word := 0
  /-- Set by a sum that wraps and a difference that borrows. -/
  carry : Bool := false
  /-- Set by a result of zero. -/
  zero : Bool := false
  deriving DecidableEq, Repr

namespace State

/-- The contents of a register. -/
def read (s : State) : Register → Word
  | .rax => s.rax
  | .rdx => s.rdx
  | .r8 => s.r8
  | .r9 => s.r9
  | .r10 => s.r10

/-- Changes one register. -/
def write (s : State) (r : Register) (x : Word) : State :=
  match r with
  | .rax => { s with rax := x }
  | .rdx => { s with rdx := x }
  | .r8 => { s with r8 := x }
  | .r9 => { s with r9 := x }
  | .r10 => { s with r10 := x }

end State

/-- The second operand of an instruction. -/
inductive Source where
  | register (r : Register)
  | immediate (x : Word)
  deriving DecidableEq, Repr

/-- The value of an operand. -/
def Source.value (s : State) : Source → Word
  | register r => s.read r
  | immediate x => x

instance : Coe Register Source := ⟨Source.register⟩

/-- What a conditional instruction looks at. -/
inductive Condition where
  | carry
  | zero
  | notZero
  deriving DecidableEq, Repr

/-- Whether the flags meet a condition. -/
def Condition.holds (s : State) : Condition → Bool
  | carry => s.carry
  | zero => s.zero
  | notZero => !s.zero

/-- The instructions. -/
inductive Instruction where
  /-- Bitwise difference into the first operand. -/
  | xor (dst : Register) (src : Source)
  /-- Sets the flags for the bitwise conjunction, which is dropped. -/
  | test (x : Register) (y : Source)
  /-- Sum into the first operand. -/
  | add (dst : Register) (src : Source)
  /-- Sum with the carry flag into the first operand. -/
  | adc (dst : Register) (src : Source)
  /-- Difference into the first operand. -/
  | sub (dst : Register) (src : Source)
  /-- Difference less the carry flag into the first operand. -/
  | sbb (dst : Register) (src : Source)
  /-- Product of `rax` and the operand into `rdx` and `rax`. -/
  | mul (src : Register)
  /-- One or zero into the low byte of the register, whose other bytes stay. -/
  | setcc (condition : Condition) (dst : Register)
  /-- The low byte of the register into the whole register. -/
  | movzx (dst : Register)
  deriving DecidableEq, Repr

/-- Writes a result, sets the zero flag for it, and sets the carry flag. -/
def State.result (s : State) (dst : Register) (x : Word) (carry : Bool) : State :=
  { s.write dst x with carry := carry, zero := x == 0 }

/-- Sum with a carry. -/
def State.addWith (s : State) (dst : Register) (src : Source) (carry : Bool) : State :=
  let x := s.read dst
  let y := src.value s
  s.result dst (x + y + BitVec.ofNat 64 carry.toNat)
    (radix 64 ≤ x.toNat + y.toNat + carry.toNat)

/-- Difference with a borrow. -/
def State.subWith (s : State) (dst : Register) (src : Source) (borrow : Bool) : State :=
  let x := s.read dst
  let y := src.value s
  s.result dst (x - y - BitVec.ofNat 64 borrow.toNat)
    (x.toNat < y.toNat + borrow.toNat)

/-- The effect of one instruction. A product leaves the zero flag undefined; here it keeps it. -/
def exec (s : State) : Instruction → State
  | .xor dst src => s.result dst (s.read dst ^^^ src.value s) false
  | .test x y => { s with carry := false, zero := (s.read x &&& y.value s) == 0 }
  | .add dst src => s.addWith dst src false
  | .adc dst src => s.addWith dst src s.carry
  | .sub dst src => s.subWith dst src false
  | .sbb dst src => s.subWith dst src s.carry
  | .mul src =>
    let product := s.rax.toNat * (s.read src).toNat
    let high : Word := BitVec.ofNat 64 (product / radix 64)
    { s with rax := BitVec.ofNat 64 product, rdx := high, carry := high != 0 }
  | .setcc condition dst =>
    let kept := s.read dst &&& ~~~255
    s.write dst (kept ||| BitVec.ofNat 64 (condition.holds s).toNat)
  | .movzx dst => s.write dst (s.read dst &&& 255)

/-- The effect of a straight-line sequence. -/
def run (code : List Instruction) (s : State) : State := code.foldl exec s

end LimbArith.Machine
