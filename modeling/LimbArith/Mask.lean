import LimbArith.Limb

/-!
# LimbArith — masks

A mask is a truth value held in a limb: no bit set for false, every bit set for true. Logic and
selection on it are bitwise, so neither branches on the value.

* `Mask.ofLimb`, `Mask.bit` — between a mask and the limbs zero and one.
* `Mask.select` — one of two limbs.
* `Mask.selectWord`, `Mask.selectSize` — one of two counts, and `toNat_selectWord`, that they agree.
* `Mask.not`, `Mask.and`, `Mask.or` — logic.
-/

namespace LimbArith

variable {w : Width}

/-- A count as a machine word holds it. -/
abbrev Word : Type := BitVec 64

/-- A truth value as a limb of zeros or ones. -/
structure Mask (w : Width) where
  bits : Limb w
  deriving DecidableEq, Repr

namespace Mask

/-- The mask for a limb that is one (set) or zero (unset). -/
def ofLimb (cond : Limb w) : Checked (Mask w) := do
  require (cond = 0 ∨ cond = 1) .notABit
  pure ⟨0 - cond⟩

/-- The set mask. -/
def set : Mask w := ⟨-1⟩

/-- The unset mask. -/
def unset : Mask w := ⟨0⟩

instance : Inhabited (Mask w) := ⟨unset⟩

/-- One for a set mask, zero for an unset one. -/
def bit (c : Mask w) : Limb w := c.bits &&& 1

/-- `x` if the mask is unset, `y` if it is set. -/
def select (c : Mask w) (x y : Limb w) : Limb w := x ^^^ (c.bits &&& (x ^^^ y))

/-- `m` if the mask is unset, `n` if it is set: the bit of the mask is spread over a word. -/
def selectWord (c : Mask w) (m n : Word) : Word :=
  m ^^^ ((0 - c.bit.setWidth 64) &&& (m ^^^ n))

/-- `selectWord` for counts of any size. -/
def selectSize (c : Mask w) (m n : Nat) : Nat := m ^^^ (c.bit.toNat * (m ^^^ n))

theorem ofLimb_zero : ofLimb (0 : Limb w) = .ok unset := by
  cases w <;> rfl

theorem ofLimb_one : ofLimb (1 : Limb w) = .ok set := by
  cases w <;> rfl

theorem bit_unset : (unset : Mask w).bit = 0 := by
  cases w <;> rfl

theorem bit_set : (set : Mask w).bit = 1 := by
  cases w <;> rfl

/-- The bit of a mask is one or zero, whatever the bits above it are. -/
theorem bit_cases (c : Mask w) : c.bit = 0 ∨ c.bit = 1 := by
  have lowest : c.bit = BitVec.setWidth w.bits (BitVec.ofBool (c.bits.getLsbD 0)) :=
    BitVec.and_one_eq_setWidth_ofBool_getLsbD
  rw [lowest]
  cases c.bits.getLsbD 0 with
  | false => exact .inl (by cases w <;> rfl)
  | true => exact .inr (by cases w <;> rfl)

theorem select_unset (x y : Limb w) : unset.select x y = x := by
  have zeros : (unset : Mask w).bits = 0#w.bits := rfl
  rw [select, zeros, BitVec.zero_and, BitVec.xor_zero]

theorem select_set (x y : Limb w) : set.select x y = y := by
  have ones : (set : Mask w).bits = BitVec.allOnes w.bits := BitVec.neg_one_eq_allOnes
  rw [select, ones, BitVec.allOnes_and, ← BitVec.xor_assoc, BitVec.xor_self, BitVec.zero_xor]

theorem selectSize_unset (m n : Nat) : (unset : Mask w).selectSize m n = m := by
  simp [selectSize, bit_unset]

theorem selectSize_set (m n : Nat) : (set : Mask w).selectSize m n = n := by
  rw [selectSize, bit_set, toNat_one, Nat.one_mul, ← Nat.xor_assoc, Nat.xor_self, Nat.zero_xor]

/-- Both selections of counts agree on all counts that a word holds. -/
theorem toNat_selectWord (c : Mask w) (m n : Word) :
    (c.selectWord m n).toNat = c.selectSize m.toNat n.toNat := by
  rcases c.bit_cases with zero | one
  · have none : (0 : Word) - (0 : Limb w).setWidth 64 = 0#64 := by cases w <;> rfl
    rw [selectWord, selectSize, zero, none, toNat_zero, BitVec.zero_and, BitVec.xor_zero,
      Nat.zero_mul, Nat.xor_zero]
  · have all : (0 : Word) - (1 : Limb w).setWidth 64 = BitVec.allOnes 64 := by cases w <;> rfl
    rw [selectWord, selectSize, one, all, toNat_one, BitVec.allOnes_and, Nat.one_mul,
      BitVec.toNat_xor, BitVec.toNat_xor]

/-- The opposite mask. -/
def not (c : Mask w) : Mask w := ⟨~~~c.bits⟩

/-- Both masks. -/
def and (c d : Mask w) : Mask w := ⟨c.bits &&& d.bits⟩

/-- Either mask. -/
def or (c d : Mask w) : Mask w := ⟨c.bits ||| d.bits⟩

/-- The diagnostic text: its bits in decimal. -/
def debugText (c : Mask w) : String := s!"LimbChoice \x7b mask: {c.bits.toNat} \x7d"

end Mask

end LimbArith
