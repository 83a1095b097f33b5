import LimbArith.Proofs.Text.Hex

/-!
# LimbArith — hexadecimal text there and back

Both directions are compared by value. The digits written for limbs have the value
of the limbs and fill them, so reading them gives the limbs back; the limbs read from
digits have the value of the digits, so what is written for them differs from the
digits in leading zeros only.

Main results:

* `digit_digitChar`, `digitChar_nibble` — one digit there and back.
* `parseChars_of_renderChars` — written limbs are read as they were.
* `renderChars_of_digits` — read digits are written as they were, up to case and padding.
* `parse_render_inverse` — both, for every array and every text.
-/

namespace LimbArith.Hex

variable {w : Width}

-- ---------------------------------------------------------------------------
-- One digit
-- ---------------------------------------------------------------------------

theorem isDigit_digitChar (d : Nibble) : IsDigit (digitChar d) := by
  revert d
  decide

/-- A written digit is read as it was. -/
theorem digit_digitChar (d : Nibble) : nibble (digitChar d) = d := by
  revert d
  decide

/-- A read digit is written in lower case. -/
theorem digitChar_nibble {c : Char} (hc : IsDigit c) : digitChar (nibble c) = c.toLower := by
  apply hc.of_all
  decide

-- ---------------------------------------------------------------------------
-- From limbs to text and back
-- ---------------------------------------------------------------------------

theorem isDigit_of_mem_renderChars (xs : Limbs w) : ∀ c ∈ renderChars xs, IsDigit c := by
  intro c hc
  obtain ⟨d, -, rfl⟩ := List.mem_map.mp hc
  exact isDigit_digitChar d

theorem length_renderChars (xs : Limbs w) :
    (renderChars xs).length = w.bits / 4 * xs.length := by
  rw [renderChars, List.length_map, List.length_reverse, Digits.length_unpack]

theorem number_renderChars (xs : Limbs w) : number (renderChars xs) = Limbs.value xs := by
  have hDigits : (renderChars xs).reverse.map nibble = Digits.unpack 4 xs := by
    simp [renderChars, Function.comp_def, digit_digitChar]
  rw [number_eq (isDigit_of_mem_renderChars xs), hDigits,
    Digits.value_unpack four_dvd_bits]

theorem withoutBase_base (digits : List Char) : withoutBase ('0' :: 'x' :: digits) = digits := by
  simp [withoutBase]

/-- Digits alone have no base. -/
theorem withoutBase_of_digits {text : List Char} (h : ∀ c ∈ text, IsDigit c) :
    withoutBase text = text := by
  rw [withoutBase, if_neg]
  rintro ⟨digits, rfl⟩
  exact absurd (h 'x' (by simp)) (by decide)

/-- Written limbs are read as they were, with or without a base. -/
theorem parseChars_of_renderChars {text : List Char} {xs : Limbs w}
    (hText : withoutBase text = renderChars xs) : parseChars w text = .ok xs := by
  have hDigits : ∀ c ∈ withoutBase text, IsDigit c := by
    rw [hText]
    exact isDigit_of_mem_renderChars xs
  rw [parseChars_of_digits hDigits, hText, number_renderChars, length_renderChars,
    Digits.limbCount_mul (by decide) four_dvd_bits, Digits.ofNat_value]

-- ---------------------------------------------------------------------------
-- From text to limbs and back
-- ---------------------------------------------------------------------------

/-- Only digits are read. -/
theorem isDigit_of_parseChars {text : List Char} {xs : Limbs w}
    (h : parseChars w text = .ok xs) : ∀ c ∈ withoutBase text, IsDigit c := by
  by_contra hOther
  obtain ⟨before, c, after, hText, hc, hAfter⟩ := exists_last_not hOther
  obtain ⟨base, -, hError⟩ := parseChars_of_last (w := w) hText hc hAfter
  rw [h] at hError
  contradiction

/-- The digits of as many limbs as digits need are these digits and zeros above them. -/
theorem unpack_of_digits {digits : List Char} (h : ∀ c ∈ digits, IsDigit c) :
    Digits.unpack 4 (Digits.ofNat (Digits.limbCount w 4 digits.length) (number digits) : Limbs w)
      = digits.reverse.map nibble ++ List.replicate
          (w.bits / 4 * Digits.limbCount w 4 digits.length - digits.length) 0 := by
  have hRoom : digits.length ≤ w.bits / 4 * Digits.limbCount w 4 digits.length :=
    Digits.le_mul_limbCount (by decide) four_dvd_bits _
  apply Digits.eq_of_value_eq
  · rw [Digits.length_unpack, Digits.length_ofNat, List.length_append, List.length_map,
      List.length_reverse, List.length_replicate, Nat.add_sub_cancel' hRoom]
  · rw [Digits.value_unpack four_dvd_bits, Digits.value_append_zeros, ← number_eq h]
    exact value_of_digits h

/-- Read digits are written as they were, in lower case and with zeros in front. -/
theorem renderChars_of_digits {digits : List Char} (h : ∀ c ∈ digits, IsDigit c) :
    renderChars (Digits.ofNat (Digits.limbCount w 4 digits.length) (number digits) : Limbs w)
      = (digits.map Char.toLower).leftpad (w.bits / 4 * Digits.limbCount w 4 digits.length) '0' := by
  have hLower : ∀ c ∈ digits, (digitChar ∘ nibble) c = c.toLower := by
    intro c hc
    exact digitChar_nibble (h c hc)
  rw [renderChars, unpack_of_digits h, List.reverse_append, List.map_append, List.reverse_replicate,
    List.map_replicate, ← List.map_reverse, List.reverse_reverse, List.map_map,
    List.map_congr_left hLower, List.leftpad, List.length_map]
  rfl

/-- The digits of as many limbs as `n` digits need are the fewest that fill limbs. -/
theorem isLeast_room (w : Width) (n : ℕ) :
    IsLeast {m | w.bits / 4 ∣ m ∧ n ≤ m} (w.bits / 4 * Digits.limbCount w 4 n) := by
  constructor
  · exact ⟨Nat.dvd_mul_right .., Digits.le_mul_limbCount (by decide) four_dvd_bits n⟩
  · rintro m ⟨⟨limbs, rfl⟩, hRoom⟩
    have hCount := Digits.limbCount_mono w 4 hRoom
    rw [Digits.limbCount_mul (by decide) four_dvd_bits] at hCount
    exact Nat.mul_le_mul_left _ hCount

-- ---------------------------------------------------------------------------
-- Both directions
-- ---------------------------------------------------------------------------

/-- **Reading and writing undo each other.** What is written for limbs is read as the same limbs,
leading zeros included and with or without a base. What is written for limbs that have been read
are the digits of the text, in lower case, with zeros in front up to the next full limb. -/
theorem parse_render_inverse (w : Width) :
    (∀ xs : Limbs w, parse w (render xs) = .ok xs ∧ parse w ("0x" ++ render xs) = .ok xs) ∧
    ∀ (text : String) (xs : Limbs w), parse w text = .ok xs →
      ∃ n, IsLeast {m | w.bits / 4 ∣ m ∧ (withoutBase text.toList).length ≤ m} n ∧
        (render xs).toList = ((withoutBase text.toList).map Char.toLower).leftpad n '0' := by
  refine ⟨fun xs => ⟨?_, ?_⟩, fun text xs h => ⟨_, isLeast_room w _, ?_⟩⟩
  · apply parseChars_of_renderChars
    rw [render, String.toList_ofList, withoutBase_of_digits (isDigit_of_mem_renderChars xs)]
  · apply parseChars_of_renderChars
    have hChars : ("0x" ++ render xs).toList = '0' :: 'x' :: renderChars xs := by
      simp [render]
    rw [hChars, withoutBase_base]
  · have hDigits := isDigit_of_parseChars h
    have hRead := (parseChars_of_digits hDigits).symm.trans h
    rw [← Except.ok.inj hRead, render, String.toList_ofList, renderChars_of_digits hDigits]

/-- Nine digits of both cases after a base, and their two limbs. -/
theorem parse_render_inverse_nine :
    parse .w32 (render ([0x89ABCDEF, 0] : Limbs .w32)) = .ok [0x89ABCDEF, 0] ∧
    parse .w32 "0x012AbcDEf" = .ok [0x12ABCDEF, 0] ∧
    ∃ n, IsLeast {m | Width.w32.bits / 4 ∣ m ∧ (withoutBase "0x012AbcDEf".toList).length ≤ m} n ∧
      (render ([0x12ABCDEF, 0] : Limbs .w32)).toList
        = ((withoutBase "0x012AbcDEf".toList).map Char.toLower).leftpad n '0' := by
  have hRead : parse .w32 "0x012AbcDEf" = .ok [0x12ABCDEF, 0] := by decide
  exact ⟨((parse_render_inverse .w32).1 _).1, hRead,
    (parse_render_inverse .w32).2 "0x012AbcDEf" _ hRead⟩

end LimbArith.Hex
