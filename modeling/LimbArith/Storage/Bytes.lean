import LimbArith.Storage.Buffer

/-!
# LimbArith — buffers and bytes

Numbers as byte strings, most significant byte first. Bytes of any length are read, leading zeros
included; written bytes have no leading zero byte.
-/

namespace LimbArith.Buffer

variable {w : Width}

/-- The number of limbs that take `n` bytes. Rounding up must not leave the range of a count. -/
def limbsForBytes (w : Width) (n : Nat) : Checked Nat := do
  let _ ← Size.add n w.bytes
  pure (Digits.limbCount w 8 n)

/-- Makes a buffer with the number of a byte string, in as many slots as the bytes need. -/
def ofBytes (w : Width) (bytes : List Byte) (sensitivity : Sensitivity) : Traced (Buffer w) := do
  let n ← limbsForBytes w bytes.length
  let b ← new w n sensitivity
  let slots ← Digits.placeAll b.slots 0 bytes.reverse
  trim { b with slots, size := n }

/-- The number as a byte string without leading zero bytes. -/
def toBytes (alu : Alu w) (b : Buffer w) : Traced (List Byte) := do
  let xs ← b.limbs
  let bits ← b.bitLength alu
  let count := (← Size.add bits 7) / 8
  if count < memoryBound then
    let bytes ← front count (Digits.unpack 8 xs)
    pure bytes.reverse
  else
    Traced.emit (.bytesRefused count)
    Traced.refuse (.allocationFailed xs.length)

end LimbArith.Buffer
