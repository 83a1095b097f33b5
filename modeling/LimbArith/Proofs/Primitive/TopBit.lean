import Mathlib.Data.Nat.Size
import LimbArith.Proofs.Primitive.Comparison
import LimbArith.Proofs.Primitive.Implementation

/-!
# LimbArith — the search for the top bit

The search for the top bit goes in rounds. A round halves the span, asks a single
comparison about the upper half, and keeps that half, moved down, if it has a bit
set. Span, mask, what is left of the limb and the count so far all change
together; `Search.Finds` relates them: the digits counted and those left are the
digits of the limb, and those left fit the span. One round keeps that, so the
rounds do, and after the last one a single bit is left to count.

Main results:

* `Search.bitLengthFrom_eq_rounds` — the search is its rounds and its answer.
* `Search.halve_exact`, `Search.rounds_exact` — one round, and all of them.
* `Alu.Lawful.bitLength_exact` — the answer is the number of binary digits.
* `bitLength_topBit` — the search, by the place of the top bit.
-/

namespace LimbArith

variable {w : Width} {alu : Alu w}

-- ---------------------------------------------------------------------------
-- Binary digits
-- ---------------------------------------------------------------------------

/-- The binary digits of a number that has more than `k` of them. -/
theorem size_of_div_ne_zero {n k : ℕ} (hHigh : n / radix k ≠ 0) :
    n.size = k + (n / radix k).size := by
  have hSize : ∀ m, (n / radix k).size ≤ m ↔ n.size ≤ k + m := by
    intro m
    rw [Nat.size_le, Nat.size_le, Nat.div_lt_iff_lt_mul (radix_pos k), Nat.add_comm, Nat.pow_add]
    rfl
  have hLow : k ≤ n.size := by
    by_contra hNot
    refine hHigh (Nat.div_eq_of_lt (lt_of_lt_of_le (Nat.lt_size_self n) ?_))
    exact Nat.pow_le_pow_right (by decide) (le_of_not_ge hNot)
  refine le_antisymm ((hSize _).mp le_rfl) ?_
  have := (hSize (n.size - k)).mpr (by omega)
  omega

theorem size_of_le_one {n : ℕ} (h : n ≤ 1) : n.size = n := by
  rcases Nat.le_one_iff_eq_zero_or_eq_one.mp h with rfl | rfl <;> decide

/-- The number of binary digits is the only place that the top bit is just below. -/
theorem topBit_iff {n : ℕ} (hn : n ≠ 0) (k : ℕ) :
    radix (k - 1) ≤ n ∧ n < radix k ↔ k = n.size := by
  have hPos : 0 < n.size := Nat.size_pos.mpr (Nat.pos_of_ne_zero hn)
  have hLow : radix (k - 1) ≤ n ↔ k - 1 < n.size := Nat.lt_size.symm
  have hHigh : n < radix k ↔ n.size ≤ k := Nat.size_le.symm
  rw [hLow, hHigh]
  omega

-- ---------------------------------------------------------------------------
-- Halves
-- ---------------------------------------------------------------------------

theorem toNat_shiftRight (x : Limb w) (n : ℕ) : (x >>> n).toNat = x.toNat / radix n := by
  rw [BitVec.toNat_ushiftRight, Nat.shiftRight_eq_div_pow]
  rfl

theorem shiftRightExact_eq_ok {n : ℕ} (h : n < w.bits) (x : Limb w) :
    x.shiftRightExact n = .ok (x >>> n) := by
  rw [Limb.shiftRightExact, require_pos h]
  rfl

/-- A mask of `n` ones keeps the low `n` bits. -/
theorem toNat_and_ones {mask : Limb w} {n : ℕ} (hMask : mask.toNat = radix n - 1) (x : Limb w) :
    (x &&& mask).toNat = x.toNat % radix n := by
  rw [BitVec.toNat_and, hMask]
  exact Nat.and_two_pow_sub_one_eq_mod ..

/-- The upper half of a mask of ones is a mask of half as many. -/
theorem toNat_ones_half {mask : Limb w} {n : ℕ} (hMask : mask.toNat = radix (n + n) - 1) :
    (mask >>> n).toNat = radix n - 1 := by
  have hOnes := Nat.mul_sub_div 0 (radix n) (radix n) (Nat.mul_pos (radix_pos n) (radix_pos n))
  rw [toNat_shiftRight, hMask, radix_add]
  rwa [Nat.zero_div, Nat.zero_add] at hOnes

-- ---------------------------------------------------------------------------
-- Rounds
-- ---------------------------------------------------------------------------

/-- Where the search stands: it has counted `count` digits and looks at the `span` low bits, which
`mask` has set, of what is left of the limb. -/
structure Search (w : Width) where
  span : ℕ
  mask : Limb w
  rest : Limb w
  count : ℕ

namespace Search

/-- At first the whole limb is left. -/
def start (x : Limb w) : Search w := ⟨w.bits, -1, x, 0⟩

/-- One round. -/
def halve (alu : Alu w) (s : Search w) : Checked (Search w) := do
  let half := s.span / 2
  let mask ← s.mask.shiftRightExact half
  let low := s.rest &&& mask
  let high ← s.rest.shiftRightExact half
  let upper ← alu.ne high 0
  let count ← Size.add s.count (upper.select 0 (BitVec.ofNat _ half)).toNat
  pure ⟨half, mask, upper.select low high, count⟩

/-- As many rounds as it says. -/
def rounds (alu : Alu w) : ℕ → Search w → Checked (Search w)
  | 0, s => pure s
  | k + 1, s => s.halve alu >>= rounds alu k

/-- The count with the bit that is left at the end. -/
def answer (s : Search w) : Checked ℕ := do
  require (s.rest.toNat ≤ 1) .searchUnfinished
  Size.add s.count s.rest.toNat

/-- A span of `radix k` bits takes `k` rounds, each of a span above one. -/
theorem bitLengthFrom_eq_rounds (alu : Alu w) (k : ℕ) {s : Search w} (hSpan : s.span = radix k) :
    alu.bitLengthFrom s.span s.mask s.rest s.count = rounds alu k s >>= answer := by
  induction k generalizing s with
  | zero =>
    rw [Alu.bitLengthFrom, hSpan, if_neg (by decide)]
    rfl
  | succ k ih =>
    have hHalf : s.span / 2 = radix k := by
      rw [hSpan, radix_add]
      exact Nat.mul_div_cancel _ (by decide)
    have hMore : s.span > 1 := by
      have := radix_pos k
      omega
    rw [Alu.bitLengthFrom, if_pos hMore]
    simp only [rounds, halve, bind_assoc, pure_bind, ← ih (s := ⟨s.span / 2, _, _, _⟩) hHalf]

/-- A round keeps the upper half, moved down, if it has a bit, and the lower half if not. -/
theorem halve_eq (h : alu.Lawful) {s : Search w} {half : ℕ} (hSpan : s.span = half + half)
    (hHalf : half < w.bits) (hCount : s.count + half < Size.bound) :
    s.halve alu = .ok (if s.rest >>> half ≠ 0
      then ⟨half, s.mask >>> half, s.rest >>> half, s.count + half⟩
      else ⟨half, s.mask >>> half, s.rest &&& (s.mask >>> half), s.count⟩) := by
  have hDown : s.span / 2 = half := by omega
  have hLimb : (BitVec.ofNat w.bits half).toNat = half := by
    rw [BitVec.toNat_ofNat]
    exact Nat.mod_eq_of_lt (lt_trans hHalf Nat.lt_two_pow_self)
  simp only [halve, hDown, shiftRightExact_eq_ok hHalf, ok_bind, h.ne_exact, Mask.select_decide]
  by_cases hUpper : s.rest >>> half ≠ 0
  · simp only [if_pos hUpper, hLimb, Size.add_eq hCount, ok_bind]
    rfl
  · simp only [if_neg hUpper, toNat_zero, Size.add_eq (show s.count + 0 < _ by omega), ok_bind]
    rfl

/-- With `k` rounds to go, the digits counted and those of what is left are the digits of `n`. What is
left fits the span, the mask covers it, and the count stays within the limb. -/
structure Finds (n k : ℕ) (s : Search w) : Prop where
  span : s.span = radix k
  mask : s.mask.toNat = radix s.span - 1
  fits : s.rest.toNat < radix s.span
  digits : n.size = s.count + s.rest.toNat.size
  room : s.count + s.span ≤ w.bits

theorem finds_start (x : Limb w) : ∃ k, (start x).Finds x.toNat k := by
  have hStart : ∀ k, w.bits = radix k → (start x).Finds x.toNat k := fun k hk =>
    { span := hk
      mask := Nat.eq_sub_of_add_eq toNat_neg_one
      fits := toNat_lt_radix x
      digits := (Nat.zero_add _).symm
      room := le_of_eq (Nat.zero_add _) }
  cases w with
  | w32 => exact ⟨5, hStart 5 rfl⟩
  | w64 => exact ⟨6, hStart 6 rfl⟩

/-- One round answers and leaves one round less to go. -/
theorem halve_exact (h : alu.Lawful) {s : Search w} {n k : ℕ} (hs : s.Finds n (k + 1)) :
    ∃ t, s.halve alu = .ok t ∧ t.Finds n k := by
  have hSpan : s.span = radix k + radix k := by
    rw [hs.span, radix_add]
    exact Nat.mul_two _
  have hPos := radix_pos k
  have hRoom := hs.room
  have hBits : w.bits < Size.bound := by cases w <;> decide
  have hMask := hs.mask
  have hFits := hs.fits
  rw [hSpan] at hMask hFits
  have hHalfMask := toNat_ones_half hMask
  have hHigh := toNat_shiftRight s.rest (radix k)
  refine ⟨_, halve_eq h hSpan (by omega) (by omega), ?_⟩
  by_cases hUpper : s.rest >>> radix k ≠ 0
  · have hNonzero : s.rest.toNat / radix (radix k) ≠ 0 := by
      rw [← hHigh]
      exact fun hz => hUpper (BitVec.eq_of_toNat_eq hz)
    rw [if_pos hUpper]
    exact
      { span := rfl
        mask := hHalfMask
        fits := by
          rw [hHigh]
          exact Nat.div_lt_of_lt_mul (radix_add .. ▸ hFits)
        digits := by rw [hs.digits, hHigh, size_of_div_ne_zero hNonzero, Nat.add_assoc]
        room := by
          show s.count + radix k + radix k ≤ w.bits
          omega }
  · have hZero : s.rest.toNat / radix (radix k) = 0 := by
      rw [← hHigh, not_not.mp hUpper]
      rfl
    have hShort : s.rest.toNat < radix (radix k) :=
      (Nat.div_eq_zero_iff_lt (radix_pos _)).mp hZero
    -- with no bit in the upper half, masking it changes nothing
    have hLow : (s.rest &&& (s.mask >>> radix k)).toNat = s.rest.toNat := by
      rw [toNat_and_ones hHalfMask, Nat.mod_eq_of_lt hShort]
    rw [if_neg hUpper]
    exact
      { span := rfl
        mask := hHalfMask
        fits := hLow ▸ hShort
        digits := hLow ▸ hs.digits
        room := by
          show s.count + radix k ≤ w.bits
          omega }

theorem rounds_exact (h : alu.Lawful) {s : Search w} {n k : ℕ} (hs : s.Finds n k) :
    ∃ last, rounds alu k s = .ok last ∧ last.Finds n 0 := by
  induction k generalizing s with
  | zero => exact ⟨s, rfl, hs⟩
  | succ k ih =>
    obtain ⟨t, hHalve, ht⟩ := halve_exact h hs
    obtain ⟨last, hRounds, hLast⟩ := ih ht
    refine ⟨last, ?_, hLast⟩
    rw [rounds, hHalve, ok_bind, hRounds]

/-- After the last round a single bit is left. -/
theorem Finds.rest_le_one {s : Search w} {n : ℕ} (hs : s.Finds n 0) : s.rest.toNat ≤ 1 := by
  have hFits := hs.fits
  rw [hs.span] at hFits
  exact Nat.le_of_lt_succ hFits

theorem Finds.answer_eq {s : Search w} {n : ℕ} (hs : s.Finds n 0) : s.answer = .ok n.size := by
  have hBit := hs.rest_le_one
  have hRoom := hs.room
  have hSpan : s.span = 1 := hs.span
  have hBits : w.bits < Size.bound := by cases w <;> decide
  rw [answer, require_pos hBit, ok_bind, Size.add_eq (by omega), hs.digits, size_of_le_one hBit]

end Search

-- ---------------------------------------------------------------------------
-- The top bit
-- ---------------------------------------------------------------------------

/-- The search in a limb of `radix k` bits ends after `k` rounds. -/
theorem Alu.Lawful.bitLength_ends (h : alu.Lawful) (x : Limb w) :
    ∃ k last, radix k = w.bits ∧
      alu.bitLength x = Search.rounds alu k (.start x) >>= Search.answer ∧
      Search.rounds alu k (.start x) = .ok last ∧ last.Finds x.toNat 0 := by
  obtain ⟨k, hStart⟩ := Search.finds_start x
  obtain ⟨last, hRounds, hLast⟩ := Search.rounds_exact h hStart
  exact ⟨k, last, hStart.span.symm, Search.bitLengthFrom_eq_rounds alu k hStart.span, hRounds,
    hLast⟩

/-- The position of the top bit plus one is the number of binary digits. -/
theorem Alu.Lawful.bitLength_exact (h : alu.Lawful) (x : Limb w) :
    alu.bitLength x = .ok x.toNat.size := by
  obtain ⟨k, last, -, hSearch, hRounds, hLast⟩ := h.bitLength_ends x
  rw [hSearch, hRounds, ok_bind, hLast.answer_eq]

/-- **The search for the top bit is exact and ends.** For every implementation of the primitives and
every limb: the search is as many rounds as it takes to halve the limb down to one bit, and its
answer. None of their shifts and sums overflows, and what the last round leaves is at most one. The
answer is zero for zero, and else the only number that the top bit is just below. -/
theorem bitLength_topBit (impl : Implementation w) (x : Limb w) :
    ∃ n last k, radix n = w.bits ∧
      impl.alu.bitLength x = Search.rounds impl.alu n (.start x) >>= Search.answer ∧
      Search.rounds impl.alu n (.start x) = .ok last ∧ last.span = 1 ∧ last.rest.toNat ≤ 1 ∧
      impl.alu.bitLength x = .ok k ∧ (x = 0 → k = 0) ∧
      (x ≠ 0 → ∀ j, radix (j - 1) ≤ x.toNat ∧ x.toNat < radix j ↔ j = k) := by
  obtain ⟨n, last, hn, hSearch, hRounds, hLast⟩ := impl.lawful.bitLength_ends x
  refine ⟨n, last, x.toNat.size, hn, hSearch, hRounds, hLast.span, hLast.rest_le_one,
    impl.lawful.bitLength_exact x, ?_, ?_⟩
  · rintro rfl
    rw [toNat_zero, Nat.size_zero]
  · intro hx
    exact topBit_iff fun hz => hx (BitVec.eq_of_toNat_eq hz)

/-- A limb between two powers of two, and zero. -/
theorem bitLength_topBit_between :
    (0xa5 : Limb .w32) ≠ 0 ∧ (0 : Limb .w32) = 0 ∧
      (Implementation.portable .w32).alu.bitLength 0xa5 = .ok 8 ∧
      (Implementation.portable .w32).alu.bitLength 0 = .ok 0 := by
  have hx : (0xa5 : Limb .w32) ≠ 0 := by decide
  obtain ⟨-, -, k, -, -, -, -, -, hAnswer, -, hTop⟩ := bitLength_topBit (.portable .w32) 0xa5
  obtain ⟨-, -, m, -, -, -, -, -, hNone, hZero, -⟩ := bitLength_topBit (.portable .w32) 0
  have hk : 8 = k := (hTop hx 8).mp ⟨by decide, by decide⟩
  rw [← hk] at hAnswer
  rw [hZero rfl] at hNone
  exact ⟨hx, rfl, hAnswer, hNone⟩

end LimbArith
