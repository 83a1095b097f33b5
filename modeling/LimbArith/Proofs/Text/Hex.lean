import Mathlib.Algebra.Order.Floor.Div
import LimbArith.Proofs.Checked
import LimbArith.Proofs.Packing
import LimbArith.Text.Hex

/-!
# LimbArith — reading hexadecimal text

A text is read from its end. Limbs are made for as many digits as the text has
bytes, and every character takes at least one byte, so each digit finds its limb
before it is known whether the rest of the text are digits. Only a character that
is no digit ends the reading early, and it is the last such one.

Main results:

* `IsDigit`, `digitValue`, `number` — which texts are numbers, and which numbers.
* `readDigits_append`, `readDigits_last` — a run of digits, and the digits at a text's end.
* `parseChars_of_digits`, `parseChars_of_last` — what is read, and what is reported.
* `parse_decides` — one of the two, for every text.
-/

namespace LimbArith.Hex

variable {w : Width}

-- ---------------------------------------------------------------------------
-- Digits
-- ---------------------------------------------------------------------------

/-- The characters that are digits. -/
def IsDigit (c : Char) : Prop :=
  '0' ≤ c ∧ c ≤ '9' ∨ 'a' ≤ c ∧ c ≤ 'f' ∨ 'A' ≤ c ∧ c ≤ 'F'

instance (c : Char) : Decidable (IsDigit c) := inferInstanceAs (Decidable (_ ∨ _))

-- characters are finitely many, but only those of the text are to be looked at
instance (text : List Char) : Decidable (∀ c ∈ text, IsDigit c) :=
  List.decidableBAll IsDigit text

/-- The value of a digit of either case: its place in the row of all digits. -/
def digitValue (c : Char) : ℕ := "0123456789abcdef".toList.idxOf c.toLower

/-- The number that digits stand for, most significant digit first. -/
def number (digits : List Char) : ℕ := digits.foldl (fun v c => v * 16 + digitValue c) 0

/-- A digit as the reader takes it. -/
def nibble (c : Char) : Nibble := BitVec.ofNat 4 (digitValue c)

/-- The characters with codes from `first` on. -/
def codesFrom (first n : ℕ) : List Char := (List.range' first n).map Char.ofNat

theorem mem_codesFrom {first n : ℕ} {c : Char} (hLow : first ≤ c.toNat)
    (hHigh : c.toNat < first + n) : c ∈ codesFrom first n :=
  List.mem_map.mpr ⟨c.toNat, List.mem_range'_1.mpr ⟨hLow, hHigh⟩, Char.ofNat_toNat c⟩

/-- All digits, of either case. -/
def allDigits : List Char := codesFrom 48 10 ++ codesFrom 97 6 ++ codesFrom 65 6

theorem IsDigit.mem {c : Char} (hc : IsDigit c) : c ∈ allDigits := by
  rcases hc with ⟨hLow, hHigh⟩ | ⟨hLow, hHigh⟩ | ⟨hLow, hHigh⟩
  · have hMem : c ∈ codesFrom 48 10 := mem_codesFrom hLow (Nat.lt_succ_of_le hHigh)
    simp [allDigits, hMem]
  · have hMem : c ∈ codesFrom 97 6 := mem_codesFrom hLow (Nat.lt_succ_of_le hHigh)
    simp [allDigits, hMem]
  · have hMem : c ∈ codesFrom 65 6 := mem_codesFrom hLow (Nat.lt_succ_of_le hHigh)
    simp [allDigits, hMem]

/-- What has been checked for all digits holds of each. -/
theorem IsDigit.of_all {c : Char} (hc : IsDigit c) {P : Char → Prop} [DecidablePred P]
    (h : allDigits.all (fun d => decide (P d)) = true) : P c :=
  of_decide_eq_true (List.all_eq_true.mp h c hc.mem)

theorem digit?_of_isDigit {c : Char} (hc : IsDigit c) : digit? c = some (nibble c) := by
  apply hc.of_all
  decide

theorem toNat_nibble {c : Char} (hc : IsDigit c) : (nibble c).toNat = digitValue c := by
  apply hc.of_all
  decide

theorem utf8Size_of_isDigit {c : Char} (hc : IsDigit c) : c.utf8Size = 1 := by
  apply hc.of_all
  decide

theorem digit?_of_not_isDigit {c : Char} (hc : ¬ IsDigit c) : digit? c = none := by
  simp only [IsDigit, not_or] at hc
  rw [digit?, if_neg hc.1, if_neg hc.2.1, if_neg hc.2.2]

/-- The last digit counts once and all others sixteen times. -/
theorem number_concat (digits : List Char) (c : Char) :
    number (digits ++ [c]) = number digits * 16 + digitValue c := by
  simp [number]

theorem number_eq {digits : List Char} (h : ∀ c ∈ digits, IsDigit c) :
    number digits = Digits.value (digits.reverse.map nibble) := by
  induction digits using List.reverseRecOn with
  | nil => rfl
  | append_singleton digits c ih =>
    simp only [List.forall_mem_append, List.forall_mem_singleton] at h
    rw [number_concat, ih h.1, List.reverse_concat, List.map_cons, Digits.value_cons,
      toNat_nibble h.2, show radix 4 = 16 from rfl]
    omega

-- ---------------------------------------------------------------------------
-- A run of digits
-- ---------------------------------------------------------------------------

/-- Hexadecimal digits fill a limb. -/
theorem four_dvd_bits : 4 ∣ w.bits := by
  cases w <;> decide

/-- As many limbs as digits need have their number. -/
theorem value_of_digits {digits : List Char} (h : ∀ c ∈ digits, IsDigit c) :
    Limbs.value (Digits.ofNat (Digits.limbCount w 4 digits.length) (number digits) : Limbs w)
      = number digits := by
  have hFits := Digits.value_lt_limbs (by decide) (four_dvd_bits (w := w))
    (digits.reverse.map nibble)
  rw [← number_eq h, List.length_map, List.length_reverse] at hFits
  exact Digits.value_ofNat_of_lt hFits

/-- A run of digits is put to its places, and leaves whatever comes after it to be read. -/
theorem readDigits_append : ∀ {cs : List (ℕ × Char)} {xs ys : Limbs w} {i : ℕ},
    (∀ c ∈ cs, IsDigit c.2) → Digits.placeAll xs i (cs.map fun c => nibble c.2) = .ok ys →
    ∀ rest, readDigits xs i (cs ++ rest) = readDigits ys (i + cs.length) rest := by
  intro cs
  induction cs with
  | nil =>
    intro xs ys i _ hPlaced rest
    rw [Except.ok.inj hPlaced]
    rfl
  | cons c cs ih =>
    intro xs zs i hDigits hPlaced rest
    obtain ⟨offset, c⟩ := c
    rw [List.forall_mem_cons] at hDigits
    rw [List.map_cons, Digits.placeAll, bind_eq_ok_iff] at hPlaced
    obtain ⟨ys, hPlace, hPlaced⟩ := hPlaced
    rw [List.cons_append, readDigits, digit?_of_isDigit hDigits.1]
    simp only [hPlace]
    rw [ih hDigits.2 hPlaced, List.length_cons]
    congr 1
    omega

-- ---------------------------------------------------------------------------
-- Positions
-- ---------------------------------------------------------------------------

theorem withOffsets_append (offset : ℕ) (cs ds : List Char) :
    withOffsets offset (cs ++ ds)
      = withOffsets offset cs ++ withOffsets (offset + byteLength cs) ds := by
  induction cs generalizing offset with
  | nil => rfl
  | cons c cs ih => simp [withOffsets, byteLength, ih, Nat.add_assoc]

theorem map_snd_withOffsets (offset : ℕ) (cs : List Char) :
    (withOffsets offset cs).map Prod.snd = cs := by
  induction cs generalizing offset with
  | nil => rfl
  | cons c cs ih => simp [withOffsets, ih]

theorem length_withOffsets (offset : ℕ) (cs : List Char) :
    (withOffsets offset cs).length = cs.length := by
  rw [← List.length_map (f := Prod.snd), map_snd_withOffsets]

theorem byteLength_append (cs ds : List Char) :
    byteLength (cs ++ ds) = byteLength cs + byteLength ds := by
  induction cs with
  | nil => simp [byteLength]
  | cons c cs ih => simp [byteLength, ih, Nat.add_assoc]

theorem byteLength_eq (cs : List Char) : byteLength cs = (String.ofList cs).utf8ByteSize := by
  induction cs with
  | nil => rfl
  | cons c cs ih => simp [byteLength, String.ofList_cons, ih]

/-- Every character takes a byte at least. -/
theorem length_le_byteLength (cs : List Char) : cs.length ≤ byteLength cs := by
  induction cs with
  | nil => exact le_rfl
  | cons c cs ih =>
    have := c.utf8Size_pos
    rw [List.length_cons, byteLength]
    omega

theorem byteLength_of_digits {cs : List Char} (h : ∀ c ∈ cs, IsDigit c) :
    byteLength cs = cs.length := by
  induction cs with
  | nil => rfl
  | cons c cs ih =>
    rw [List.forall_mem_cons] at h
    rw [byteLength, ih h.2, utf8Size_of_isDigit h.1, List.length_cons, Nat.add_comm]

/-- What holds of all characters holds of them with their positions, read from the end. -/
theorem forall_withOffsets {P : Char → Prop} {offset : ℕ} {cs : List Char} (h : ∀ c ∈ cs, P c) :
    ∀ c ∈ (withOffsets offset cs).reverse, P c.2 := by
  intro c hc
  apply h
  rw [← map_snd_withOffsets offset cs]
  exact List.mem_map_of_mem (List.mem_reverse.mp hc)

-- ---------------------------------------------------------------------------
-- Texts
-- ---------------------------------------------------------------------------

/-- A text without one leading `0x`. -/
def withoutBase (text : List Char) : List Char :=
  if ['0', 'x'] <+: text then text.drop 2 else text

/-- What is split off is a leading `0x`, if there is one. -/
theorem splitBase_eq (text : List Char) :
    ∃ base, text = base ++ withoutBase text ∧
      splitBase text = (byteLength base, withoutBase text) := by
  by_cases hBase : ['0', 'x'] <+: text
  · obtain ⟨digits, rfl⟩ := hBase
    exact ⟨['0', 'x'], rfl, rfl⟩
  · have hNone : splitBase text = (0, text) := by
      fun_cases splitBase text with
      | case1 digits => exact absurd ⟨digits, rfl⟩ hBase
      | case2 => rfl
    rw [withoutBase, if_neg hBase, hNone]
    exact ⟨[], rfl, rfl⟩

/-- The limbs for a text, each byte of it a digit, before anything is read. -/
def blank (w : Width) (digits : List Char) : Limbs w :=
  List.replicate (Digits.limbCount w 4 (byteLength digits)) 0

/-- The limbs for a text have room for its last digits, which are put to their places whatever
comes before them. -/
theorem readDigits_last (before : List Char) {after : List Char}
    (hAfter : ∀ d ∈ after, IsDigit d) (offset : ℕ) (rest : List (ℕ × Char)) :
    readDigits (blank w (before ++ after)) 0 ((withOffsets offset after).reverse ++ rest)
      = readDigits (Digits.ofNat (Digits.limbCount w 4 (byteLength (before ++ after)))
          (number after)) after.length rest := by
  have hNibbles : (withOffsets offset after).reverse.map (fun c => nibble c.2)
      = after.reverse.map nibble := by
    rw [List.map_reverse, List.map_reverse]
    nth_rewrite 2 [← map_snd_withOffsets offset after]
    rw [List.map_map]
    rfl
  have hRoom : (after.reverse.map nibble).length
      ≤ w.bits / 4 * Digits.limbCount w 4 (byteLength (before ++ after)) := by
    have hBytes := length_le_byteLength (before ++ after)
    have hCounted := Digits.le_mul_limbCount (by decide) (four_dvd_bits (w := w))
      (byteLength (before ++ after))
    rw [List.length_append] at hBytes
    rw [List.length_map, List.length_reverse]
    omega
  have hPlaced := Digits.placeAll_zeros (by decide) four_dvd_bits hRoom
  rw [← number_eq hAfter, ← hNibbles] at hPlaced
  rw [blank, readDigits_append (forall_withOffsets hAfter) hPlaced, Nat.zero_add,
    List.length_reverse, length_withOffsets]

/-- A text of digits is read as their number, in as many limbs as they need. -/
theorem parseChars_of_digits {text : List Char} (h : ∀ c ∈ withoutBase text, IsDigit c) :
    parseChars w text = .ok (Digits.ofNat
      (Digits.limbCount w 4 (withoutBase text).length) (number (withoutBase text))) := by
  obtain ⟨base, -, hSplit⟩ := splitBase_eq text
  have hRead := readDigits_last (w := w) [] h (byteLength base) []
  rw [List.nil_append, List.append_nil, byteLength_of_digits h] at hRead
  rw [parseChars, hSplit]
  exact hRead

/-- Otherwise the last character that is no digit is reported. -/
theorem parseChars_of_last {text before after : List Char} {c : Char}
    (hText : withoutBase text = before ++ c :: after) (hc : ¬ IsDigit c)
    (hAfter : ∀ d ∈ after, IsDigit d) :
    ∃ base, text = base ++ (before ++ c :: after) ∧
      parseChars w text = .error (.invalidChar (byteLength (base ++ before)) c) := by
  obtain ⟨base, hBase, hSplit⟩ := splitBase_eq text
  rw [hText] at hBase hSplit
  refine ⟨base, hBase, ?_⟩
  have hRead := readDigits_last (w := w) (before ++ [c]) hAfter
  rw [List.append_assoc, List.singleton_append] at hRead
  rw [parseChars, hSplit]
  simp only [withOffsets_append, withOffsets, List.reverse_append, List.reverse_cons,
    List.append_assoc, List.singleton_append]
  rw [← blank, hRead, readDigits, digit?_of_not_isDigit hc, byteLength_append base]

/-- A text that is not all digits has a last character that is none. -/
theorem exists_last_not {P : Char → Prop} : ∀ {cs : List Char}, ¬ (∀ c ∈ cs, P c) →
    ∃ before c after, cs = before ++ c :: after ∧ ¬ P c ∧ ∀ d ∈ after, P d := by
  intro cs h
  induction cs with
  | nil => simp at h
  | cons x cs ih =>
    by_cases hRest : ∀ c ∈ cs, P c
    · have hx : ¬ P x := by
        intro hx
        exact h (List.forall_mem_cons.mpr ⟨hx, hRest⟩)
      exact ⟨[], x, cs, rfl, hx, hRest⟩
    · obtain ⟨before, c, after, rfl, hc, hAfter⟩ := ih hRest
      exact ⟨x :: before, c, after, rfl, hc, hAfter⟩

/-- **Every text is either a number or has a last character that is no digit.** Digits are read as
the number they stand for, in as many limbs as they need; otherwise the character is reported, at
its position in the whole text in bytes. Nothing else can happen. -/
theorem parse_decides (w : Width) (text : String) :
    ((∀ c ∈ withoutBase text.toList, IsDigit c) →
      ∃ xs : Limbs w, parse w text = .ok xs ∧
        xs.length = (withoutBase text.toList).length ⌈/⌉ (w.bits / 4) ∧
        Limbs.value xs = number (withoutBase text.toList)) ∧
    (¬ (∀ c ∈ withoutBase text.toList, IsDigit c) →
      ∃ before c after, text.toList = before ++ c :: after ∧
        c :: after <:+ withoutBase text.toList ∧ ¬ IsDigit c ∧ (∀ d ∈ after, IsDigit d) ∧
        parse w text = .error (.invalidChar (String.ofList before).utf8ByteSize c)) := by
  constructor
  · intro h
    refine ⟨_, parseChars_of_digits h, ?_, ?_⟩
    · rw [Digits.length_ofNat]
      rfl
    · exact value_of_digits h
  · intro h
    obtain ⟨before, c, after, hText, hc, hAfter⟩ := exists_last_not h
    obtain ⟨base, hBase, hParse⟩ := parseChars_of_last (w := w) hText hc hAfter
    refine ⟨base ++ before, c, after, ?_, ?_, hc, hAfter, ?_⟩
    · rw [hBase, List.append_assoc]
    · rw [hText]
      exact List.suffix_append ..
    · rw [← byteLength_eq]
      exact hParse

/-- Digits of both cases after a base, and a letter after a character of two bytes. -/
theorem parse_decides_mixed :
    (∀ c ∈ withoutBase "0xAbC".toList, IsDigit c) ∧
    (∃ xs : Limbs .w32, parse .w32 "0xAbC" = .ok xs ∧ xs.length = 1 ∧ Limbs.value xs = 0xabc) ∧
    (¬ ∀ c ∈ withoutBase "éx1".toList, IsDigit c) ∧
    ∃ before c after, "éx1".toList = before ++ c :: after ∧
      c :: after <:+ withoutBase "éx1".toList ∧ ¬ IsDigit c ∧ (∀ d ∈ after, IsDigit d) ∧
      parse .w32 "éx1" = .error (.invalidChar (String.ofList before).utf8ByteSize c) := by
  have hDigits : ∀ c ∈ withoutBase "0xAbC".toList, IsDigit c := by decide
  have hOther : ¬ ∀ c ∈ withoutBase "éx1".toList, IsDigit c := by decide
  exact ⟨hDigits, (parse_decides .w32 "0xAbC").1 hDigits, hOther,
    (parse_decides .w32 "éx1").2 hOther⟩

example : parse .w32 "éx1" = .error (.invalidChar 2 'x') := by decide

end LimbArith.Hex
