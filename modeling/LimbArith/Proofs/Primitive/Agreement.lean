import LimbArith.Kernel.Primitive
import LimbArith.Proofs.Primitive.Implementation

/-!
# LimbArith — the machine agrees with the portable primitives

The primitives for 64-bit limbs exist twice: as bitwise formulas and half-limb
products, and as instruction sequences that move carries through a flag. Nothing
in one resembles the other, and the operands are too many to compare them on.

The laws settle it. Each law is an equation between numbers in which the carry
and the limb of an answer are an upper part and a lower digit, and a number has
only one of each. So the laws leave no choice: two lawful sets of primitives are
one and the same.

A sequence runs in the middle of a program, with whatever the program left in
the registers and the flags. `Machine.Realizes` says that none of it matters:
from every state, the sequences leave the answers of the primitives.

Main results:

* `Alu.Lawful.unique` — lawful primitives are unique.
* `Machine.realizes` — each sequence computes its primitive, from any state.
* `Alu.Lawful.refusesOnlyCarries` — which operands are refused.
* `Machine.agrees_with_portable` — both builds answer alike.
-/

namespace LimbArith

variable {w : Width}

-- ---------------------------------------------------------------------------
-- Answers known by their values
-- ---------------------------------------------------------------------------

/-- A product has one high and one low limb. -/
theorem WideLimb.eq_of_value_eq {d e : WideLimb w} (hValue : d.value = e.value) : d = e := by
  obtain ⟨hHigh, hLow⟩ := high_low_unique (toNat_lt_radix d.low) (toNat_lt_radix e.low) hValue
  rw [WideLimb.mk.injEq]
  exact ⟨BitVec.eq_of_toNat_eq hHigh, BitVec.eq_of_toNat_eq hLow⟩

/-- Two operations that answer with the only value of some property answer alike. -/
theorem answer_unique {α : Type} {x y : Checked α} {p : α → Prop}
    (hUnique : ∀ a b, p a → p b → a = b) (hx : ∃ a, x = .ok a ∧ p a)
    (hy : ∃ b, y = .ok b ∧ p b) : x = y := by
  obtain ⟨a, rfl, ha⟩ := hx
  obtain ⟨b, rfl, hb⟩ := hy
  rw [hUnique a b ha hb]

-- ---------------------------------------------------------------------------
-- Uniqueness
-- ---------------------------------------------------------------------------

namespace Alu.Lawful

variable {a b : Alu w}

theorem addCarry_unique (ha : a.Lawful) (hb : b.Lawful) (x y c : Limb w) :
    a.addCarry x y c = b.addCarry x y c := by
  by_cases hc : c.toNat ≤ 1
  · refine answer_unique ?_ (ha.addCarry x y c hc) (hb.addCarry x y c hc)
    intro s t hs ht
    exact Carried.eq_of_sum (hs.trans ht.symm)
  · have hLarge : 1 < c.toNat := Nat.lt_of_not_le hc
    rw [ha.addCarry_refused x y c hLarge, hb.addCarry_refused x y c hLarge]

theorem subBorrow_unique (ha : a.Lawful) (hb : b.Lawful) (x y c : Limb w) :
    a.subBorrow x y c = b.subBorrow x y c := by
  by_cases hc : c.toNat ≤ 1
  · refine answer_unique ?_ (ha.subBorrow x y c hc) (hb.subBorrow x y c hc)
    intro s t hs ht
    exact Carried.eq_of_difference hs ht
  · have hLarge : 1 < c.toNat := Nat.lt_of_not_le hc
    rw [ha.subBorrow_refused x y c hLarge, hb.subBorrow_refused x y c hLarge]

/-- **The laws of primitives have one solution.** -/
theorem unique (ha : a.Lawful) (hb : b.Lawful) : a = b := by
  rw [Alu.mk.injEq]
  refine ⟨?_, ?_, ?_, ?_, ?_, ?_, ?_, ?_, ?_⟩
  · funext x
    rw [ha.isNonzero, hb.isNonzero]
  · funext x
    rw [ha.isZero, hb.isZero]
  · funext x y
    exact Carried.eq_of_sum ((ha.add x y).trans (hb.add x y).symm)
  · funext x y c
    exact addCarry_unique ha hb x y c
  · funext x y
    exact Carried.eq_of_difference (ha.sub x y) (hb.sub x y)
  · funext x y c
    exact subBorrow_unique ha hb x y c
  · funext x y
    refine answer_unique ?_ (ha.mul x y) (hb.mul x y)
    intro d e hd he
    exact WideLimb.eq_of_value_eq (hd.trans he.symm)
  · funext acc x y c
    refine answer_unique ?_ (ha.mulAdd acc x y c) (hb.mulAdd acc x y c)
    intro s t hs ht
    exact Carried.eq_of_sum (hs.trans ht.symm)
  · funext acc x y c
    refine answer_unique ?_ (ha.mulSub acc x y c) (hb.mulSub acc x y c)
    intro s t hs ht
    exact Carried.eq_of_difference hs ht

end Alu.Lawful

-- ---------------------------------------------------------------------------
-- Refusals
-- ---------------------------------------------------------------------------

/-- The primitives refuse a carry or a borrow above one, and nothing else; those that are not named
here have no way to refuse. -/
structure Alu.RefusesOnlyCarries (alu : Alu w) : Prop where
  addCarry : ∀ x y c, (∃ fault, alu.addCarry x y c = .error fault) ↔ 1 < c.toNat
  subBorrow : ∀ x y c, (∃ fault, alu.subBorrow x y c = .error fault) ↔ 1 < c.toNat
  mul : ∀ x y, ∃ d, alu.mul x y = .ok d
  mulAdd : ∀ acc x y c, ∃ s, alu.mulAdd acc x y c = .ok s
  mulSub : ∀ acc x y c, ∃ s, alu.mulSub acc x y c = .ok s

/-- An operation that answers up to one and faults above refuses what is above one. -/
theorem refuses_iff {α : Type} {x : Checked α} {n : ℕ} {fault : Fault}
    (hOk : n ≤ 1 → ∃ a, x = .ok a) (hLarge : 1 < n → x = .error fault) :
    (∃ fault, x = .error fault) ↔ 1 < n := by
  constructor
  · rintro ⟨other, hError⟩
    by_contra hSmall
    obtain ⟨a, ha⟩ := hOk (Nat.le_of_not_lt hSmall)
    rw [ha] at hError
    cases hError
  · intro h
    exact ⟨fault, hLarge h⟩

theorem Alu.Lawful.refusesOnlyCarries {alu : Alu w} (h : alu.Lawful) :
    alu.RefusesOnlyCarries where
  addCarry x y c := by
    refine refuses_iff ?_ (h.addCarry_refused x y c)
    intro hc
    obtain ⟨s, hOk, -⟩ := h.addCarry x y c hc
    exact ⟨s, hOk⟩
  subBorrow x y c := by
    refine refuses_iff ?_ (h.subBorrow_refused x y c)
    intro hc
    obtain ⟨s, hOk, -⟩ := h.subBorrow x y c hc
    exact ⟨s, hOk⟩
  mul x y := by
    obtain ⟨d, hOk, -⟩ := h.mul x y
    exact ⟨d, hOk⟩
  mulAdd acc x y c := by
    obtain ⟨s, hOk, -⟩ := h.mulAdd acc x y c
    exact ⟨s, hOk⟩
  mulSub acc x y c := by
    obtain ⟨s, hOk, -⟩ := h.mulSub acc x y c
    exact ⟨s, hOk⟩

-- ---------------------------------------------------------------------------
-- Sequences from any state
-- ---------------------------------------------------------------------------

namespace Machine

/-- Each sequence, run from any state, leaves the answer of its primitive for the operands in that
state. A sequence that takes a carry asks for one of at most one. -/
structure Realizes (alu : Alu .w64) : Prop where
  isNonzero : ∀ s, (run isNonzeroCode s).r9 = alu.isNonzero s.r8
  isZero : ∀ s, (run isZeroCode s).r9 = alu.isZero s.r8
  add : ∀ s, ⟨(run addCode s).r10, (run addCode s).r8⟩ = alu.add s.r8 s.r9
  addCarry : ∀ s, s.r10.toNat ≤ 1 →
    .ok ⟨(run addCarryCode s).r10, (run addCarryCode s).r8⟩ = alu.addCarry s.r8 s.r9 s.r10
  sub : ∀ s, ⟨(run subCode s).r10, (run subCode s).r8⟩ = alu.sub s.r8 s.r9
  subBorrow : ∀ s, s.r10.toNat ≤ 1 →
    .ok ⟨(run subBorrowCode s).r10, (run subBorrowCode s).r8⟩ = alu.subBorrow s.r8 s.r9 s.r10
  mul : ∀ s, .ok ⟨(run mulCode s).rdx, (run mulCode s).rax⟩ = alu.mul s.rax s.r8
  mulAdd : ∀ s,
    .ok ⟨(run mulAddCode s).rdx, (run mulAddCode s).rax⟩ = alu.mulAdd s.r9 s.rax s.r8 s.r10
  mulSub : ∀ s,
    .ok ⟨(run mulSubCode s).rdx, (run mulSubCode s).r9⟩ = alu.mulSub s.r9 s.rax s.r8 s.r10

/-- What a sequence leaves depends on its operands alone. -/
theorem realizes : Realizes alu where
  isNonzero s := by
    rw [isNonzeroCode_run, isNonzero_run]
  isZero s := by
    rw [isZeroCode_run, isZero_run]
  add s := by
    rw [addCode_run, add_run]
  addCarry s hc := by
    obtain ⟨flag, hFlag⟩ := exists_flagWord hc
    rw [addCarryCode_run s hFlag, hFlag, addCarry_run]
  sub s := by
    rw [subCode_run, sub_run]
  subBorrow s hc := by
    obtain ⟨flag, hFlag⟩ := exists_flagWord hc
    rw [subBorrowCode_run s hFlag, hFlag, subBorrow_run]
  mul s := by
    rw [mulCode_run, mul_run]
  mulAdd s := by
    rw [mulAddCode_run, mulAdd_run]
  mulSub s := by
    rw [mulSubCode_run, mulSub_run]

theorem alu_eq_portable : alu = Portable.alu .w64 := lawful.unique (Portable.lawful .w64)

/-- **Both builds answer alike.** Run from any state, every instruction sequence leaves exactly the
limbs that the portable primitive of the same name returns, so the two sets of primitives are equal.
Both refuse a carry or a borrow above one and nothing else. Hence every operation on single limbs
and every operation on arrays gives the same answer, or the same fault, in both builds. -/
theorem agrees_with_portable :
    Realizes (Portable.alu .w64) ∧ alu = Portable.alu .w64 ∧
      alu.RefusesOnlyCarries ∧ (Portable.alu .w64).RefusesOnlyCarries ∧
      (∀ p : Primitive .w64, p.run alu = p.run (Portable.alu .w64)) ∧
      ∀ call : Call (Limbs .w64) (Limb .w64), call.run alu = call.run (Portable.alu .w64) := by
  refine ⟨?_, alu_eq_portable, lawful.refusesOnlyCarries,
    (Portable.lawful .w64).refusesOnlyCarries, ?_, ?_⟩
  · rw [← alu_eq_portable]
    exact realizes
  · intro p
    rw [alu_eq_portable]
  · intro call
    rw [alu_eq_portable]

end Machine

end LimbArith
