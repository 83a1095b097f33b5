import LimbArith.Storage.Session
import LimbArith.Proofs.Storage.Buffer

/-!
# LimbArith — registers

Main results:

* `WellFormed` — every buffer in a register is well-formed.
* `get_eq_ok_iff`, `operand_eq_ok_iff` — when a register can be read.
* `lookup_set_self`, `lookup_set_ne` — what a register holds after a change.
-/

namespace LimbArith.Session.Registers

variable {w : Width} {regs : Registers w} {r dst : ℕ} {b : Buffer w}

/-- Every buffer in a register is well-formed. -/
def WellFormed (regs : Registers w) : Prop :=
  ∀ r b, regs.lookup r = some b → b.WellFormed

theorem get_eq_ok_iff : regs.get r = .ok b ↔ regs.lookup r = some b := by
  unfold get
  cases regs.lookup r with
  | none => simp
  | some c => simp

theorem operand_eq_ok_iff : regs.operand dst r = .ok b ↔ r ≠ dst ∧ regs.lookup r = some b := by
  unfold operand
  by_cases h : r ≠ dst
  · rw [require_pos h, ok_bind, get_eq_ok_iff]
    exact ⟨fun hb => ⟨h, hb⟩, And.right⟩
  · rw [require_neg h, error_bind]
    exact ⟨nofun, fun hb => absurd hb.1 h⟩

theorem lookup_of_le (h : regs.length ≤ r) : regs.lookup r = none := by
  rw [lookup, List.getElem?_eq_none h]
  rfl

theorem lt_of_lookup (h : regs.lookup r = some b) : r < regs.length := by
  by_contra hNot
  rw [lookup_of_le (not_lt.mp hNot)] at h
  cases h

theorem lookup_set_self (h : dst < regs.length) (o : Option (Buffer w)) :
    lookup (regs.set dst o) dst = o := by
  rw [lookup, List.getElem?_set_self h]
  rfl

/-- A register that is emptied holds nothing, if there is such a register or not. -/
theorem lookup_set_none (regs : Registers w) (dst : ℕ) : lookup (regs.set dst none) dst = none := by
  by_cases hDst : dst < regs.length
  · exact lookup_set_self hDst none
  · rw [List.set_eq_of_length_le (not_lt.mp hDst), lookup_of_le (not_lt.mp hDst)]

theorem lookup_set_ne (h : r ≠ dst) (o : Option (Buffer w)) :
    lookup (regs.set dst o) r = regs.lookup r := by
  rw [lookup, List.getElem?_set_ne h.symm, ← lookup]

theorem set_lookup (regs : Registers w) (r : ℕ) : regs.set r (regs.lookup r) = regs := by
  by_cases h : r < regs.length
  · rw [lookup, List.getElem?_eq_getElem h]
    exact List.set_getElem_self h
  · exact List.set_eq_of_length_le (not_lt.mp h)

theorem lookup_empty (n r : ℕ) : (empty w n).lookup r = none := by
  unfold lookup empty
  rw [List.getElem?_replicate]
  split <;> rfl

theorem wellFormed_empty (n : ℕ) : (empty w n).WellFormed := by
  intro r b h
  rw [lookup_empty] at h
  cases h

/-- A buffer that is in a register after a change was put there or was there before. -/
theorem of_lookup_set {o : Option (Buffer w)} (h : lookup (regs.set dst o) r = some b) :
    o = some b ∨ regs.lookup r = some b := by
  by_cases hr : r = dst
  · by_cases hRange : dst < regs.length
    · rw [hr, lookup_set_self hRange] at h
      exact .inl h
    · rw [List.set_eq_of_length_le (not_lt.mp hRange)] at h
      exact .inr h
  · rw [lookup_set_ne hr] at h
    exact .inr h

theorem WellFormed.set (hRegs : regs.WellFormed) {o : Option (Buffer w)}
    (ho : ∀ b, o = some b → b.WellFormed) : WellFormed (regs.set dst o) := by
  intro r b h
  rcases of_lookup_set h with hPut | hKept
  · exact ho b hPut
  · exact hRegs r b hKept

/-- The buffer that is read from a register is well-formed. -/
theorem WellFormed.get (hRegs : regs.WellFormed) (h : regs.get r = .ok b) : b.WellFormed :=
  hRegs r b (get_eq_ok_iff.mp h)

theorem WellFormed.operand (hRegs : regs.WellFormed) (h : regs.operand dst r = .ok b) :
    b.WellFormed :=
  hRegs r b (operand_eq_ok_iff.mp h).2

end LimbArith.Session.Registers
