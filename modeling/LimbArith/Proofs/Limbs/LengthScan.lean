import Mathlib.Order.Bounds.Basic
import LimbArith.Proofs.Limbs.Order

/-!
# LimbArith — both scans find the significant length

One scan for the significant length comes from the top and stops at the first
limb that is not zero. The other starts at the bottom, goes over every limb and
lets a mask replace its answer at each. Seen from the bottom there is no leading
zero to look for; what carries the second scan is that its answer is always the
significant length of the limbs that it has passed.

The length is the least one that keeps the value. A shorter part would have the
same value as one that ends with a nonzero limb, and of two arrays with the same
value the one without leading zeros is not longer.

Main results:

* `significantLenScan_exact` — the scan from the bottom, by `scanLen_exact`.
* `significantLenScan_words` — the same scan with machine words for counts.
* `value_take_eq_iff` — the parts that keep the value.
* `IsSignificant`, `IsSignificant.unique` — the length by the limbs around it.
* `significantLen_minimal` — both scans, and what they find.
-/

namespace LimbArith.Limbs

variable {w : Width} {alu : Alu w} {xs : Limbs w}

-- ---------------------------------------------------------------------------
-- From the bottom up
-- ---------------------------------------------------------------------------

/-- The scan knows the significant length of the limbs that it has passed. -/
theorem scanLen_exact (hAlu : alu.Lawful) (passed xs : Limbs w) :
    scanLen alu passed.length (significantLen passed) xs
      = .ok (significantLen (passed ++ xs)) := by
  induction xs generalizing passed with
  | nil =>
    rw [List.append_nil]
    rfl
  | cons x xs ih =>
    have hLength : passed.length + 1 = (passed ++ [x]).length := by simp
    have hBest : (Mask.decide (x ≠ 0) : Mask w).selectSize (significantLen passed)
        (passed.length + 1) = significantLen (passed ++ [x]) := by
      rw [Mask.selectSize_decide, significantLen_concat]
      exact ite_not (x = 0) (passed.length + 1) (significantLen passed)
    rw [scanLen, hAlu.ne_exact, ok_bind, hBest, hLength, ih, List.append_assoc]
    rfl

theorem significantLenScan_exact (hAlu : alu.Lawful) (xs : Limbs w) :
    significantLenScan alu xs = .ok (significantLen xs) := scanLen_exact hAlu [] xs

-- ---------------------------------------------------------------------------
-- Counts in machine words
-- ---------------------------------------------------------------------------

/-- The scan from the bottom with its counts in machine words. -/
def scanWords (alu : Alu w) (i best : Word) : Limbs w → Checked Word
  | [] => pure best
  | x :: xs => do
    let nonzero ← alu.ne x 0
    scanWords alu (i + 1) (nonzero.selectWord best (i + 1)) xs

/-- As long as a word holds every position, no count of the scan is ever cut off. -/
theorem scanLen_words (i best : Word) {xs : Limbs w} (hFits : i.toNat + xs.length < Size.bound) :
    scanLen alu i.toNat best.toNat xs = BitVec.toNat <$> scanWords alu i best xs := by
  induction xs generalizing i best with
  | nil => rfl
  | cons x xs ih =>
    rw [List.length_cons] at hFits
    have hRoom : i.toNat + 1 < Size.bound := by omega
    have hNext : (i + 1).toNat = i.toNat + 1 := BitVec.toNat_add_of_lt hRoom
    rw [scanLen, scanWords]
    cases alu.ne x 0 with
    | error fault => rfl
    | ok nonzero =>
      show scanLen alu (i.toNat + 1) (nonzero.selectSize best.toNat (i.toNat + 1)) xs
        = BitVec.toNat <$> scanWords alu (i + 1) (nonzero.selectWord best (i + 1)) xs
      rw [← hNext, ← Mask.toNat_selectWord]
      exact ih (i + 1) _ (by omega)

theorem significantLenScan_words (alu : Alu w) (hFits : xs.length < Size.bound) :
    significantLenScan alu xs = BitVec.toNat <$> scanWords alu 0 0 xs := by
  refine scanLen_words 0 0 ?_
  show 0 + xs.length < Size.bound
  rwa [Nat.zero_add]

-- ---------------------------------------------------------------------------
-- The parts that keep the value
-- ---------------------------------------------------------------------------

theorem value_take_le (xs : Limbs w) (k : ℕ) : value (xs.take k) ≤ value xs := by
  have hSplit := Digits.value_append (xs.take k) (xs.drop k)
  rw [List.take_append_drop] at hSplit
  exact Nat.le.intro hSplit.symm

/-- The lowest limbs have the whole value exactly if they are not fewer than the significant ones. -/
theorem value_take_eq_iff (xs : Limbs w) (k : ℕ) :
    value (xs.take k) = value xs ↔ significantLen xs ≤ k := by
  have hKept := value_take_significantLen xs
  constructor
  · intro hValue
    have hLength := (canonical_take_significantLen xs).length_le
      (le_of_eq (hKept.trans hValue.symm))
    rw [List.length_take_of_le (significantLen_le xs), List.length_take] at hLength
    exact le_trans hLength (min_le_left ..)
  · intro hLong
    have hLower : value (xs.take (significantLen xs)) ≤ value (xs.take k) := by
      have hPart := value_take_le (xs.take k) (significantLen xs)
      rwa [List.take_take, min_eq_left hLong] at hPart
    exact le_antisymm (value_take_le xs k) (hKept ▸ hLower)

theorem isLeast_significantLen (xs : Limbs w) :
    IsLeast {k | value (xs.take k) = value xs} (significantLen xs) :=
  ⟨value_take_significantLen xs, fun k hk => (value_take_eq_iff xs k).mp hk⟩

-- ---------------------------------------------------------------------------
-- The limbs around the length
-- ---------------------------------------------------------------------------

/-- The array has `k` significant limbs: those above are zero, and the topmost of them is not. -/
structure IsSignificant (xs : Limbs w) (k : ℕ) : Prop where
  above : ∀ i (h : i < xs.length), k ≤ i → xs[i] = 0
  top : 0 < k → ∃ h : k - 1 < xs.length, xs[k - 1] ≠ 0

theorem isSignificant_significantLen (xs : Limbs w) : IsSignificant xs (significantLen xs) where
  above i h hAbove := by
    have hIndex : significantLen xs + (i - significantLen xs) = i := Nat.add_sub_cancel' hAbove
    have hMem : xs[i] ∈ xs.drop (significantLen xs) :=
      List.mem_drop_iff_getElem.mpr ⟨i - significantLen xs, by omega, by simp only [hIndex]⟩
    exact eq_zero_of_mem_drop hMem
  top hPos := by
    have hLe := significantLen_le xs
    have hTop : significantLen xs - 1 < xs.length := by omega
    refine ⟨hTop, ?_⟩
    intro hZero
    apply canonical_take_significantLen xs
    rw [List.getLast?_take, if_neg hPos.ne', List.getElem?_eq_getElem hTop, hZero]
    rfl

/-- There is one such number: above the smaller of two, all limbs would be zero. -/
theorem IsSignificant.unique {m n : ℕ} (hm : IsSignificant xs m) (hn : IsSignificant xs n) :
    m = n := by
  rcases lt_trichotomy m n with hLess | hSame | hMore
  · obtain ⟨h, hTop⟩ := hn.top (Nat.zero_lt_of_lt hLess)
    exact absurd (hm.above (n - 1) h (Nat.le_sub_one_of_lt hLess)) hTop
  · exact hSame
  · obtain ⟨h, hTop⟩ := hm.top (Nat.zero_lt_of_lt hMore)
    exact absurd (hn.above (m - 1) h (Nat.le_sub_one_of_lt hMore)) hTop

theorem isZero_significantLen (hAlu : alu.Lawful) (xs : Limbs w) :
    isZero alu xs = .ok (Mask.decide (significantLen xs = 0)) := by
  have hEmpty := value_take_eq_iff xs 0
  rw [List.take_zero, value_nil, Nat.le_zero] at hEmpty
  rw [isZero_exact hAlu, Mask.decide_congr (eq_comm.trans hEmpty)]

-- ---------------------------------------------------------------------------
-- Both scans
-- ---------------------------------------------------------------------------

/-- **Both scans find the significant length.** For every implementation of the primitives and every
array, whatever its limbs: the scan over every limb answers, with what the scan from the top finds.
It is the least number of limbs that keep the value, which is the one number with only zeros above
and a nonzero limb on top, and the test for zero is set exactly if it is zero. -/
theorem significantLen_minimal (impl : Implementation w) (xs : Limbs w) :
    significantLenScan impl.alu xs = .ok (significantLen xs) ∧
    IsLeast {k | value (xs.take k) = value xs} (significantLen xs) ∧
    (∀ k, IsLeast {j | value (xs.take j) = value xs} k ↔ IsSignificant xs k) ∧
    isZero impl.alu xs = .ok (Mask.decide (significantLen xs = 0)) := by
  have hAlu := impl.lawful
  have hLeast := isLeast_significantLen xs
  have hSignificant := isSignificant_significantLen xs
  refine ⟨significantLenScan_exact hAlu xs, hLeast, ?_, isZero_significantLen hAlu xs⟩
  intro k
  constructor
  · intro hk
    rwa [hk.unique hLeast]
  · intro hk
    rwa [hk.unique hSignificant]

end LimbArith.Limbs
