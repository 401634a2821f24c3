import ClassRelay.Bytes.BigEndian
import ClassRelay.ClassFile.Error

/-!
# Reading class bytes

Bounds-checked big-endian reads at an offset. A read succeeds exactly when all its bytes lie
inside (`readBytes_eq_ok_iff`), and otherwise says which byte it wanted last. Offsets are
natural numbers, so their sums are exact; only the reported offset stays within 64 bits.
-/

namespace ClassRelay.ClassFile

/-- The largest offset that an error reports. -/
def maxOffset : Nat :=
  UInt64.size - 1

/-- The error of a read of `size` bytes at `offset` that does not fit. -/
def pastEnd (b : ByteArray) (offset size : Nat) : ClassError :=
  .outOfBounds (min (offset + size) maxOffset - 1) b.size

/-- The two bytes at `offset` as a number. -/
def word16 (b : ByteArray) (offset : Nat) (h : offset + 2 ≤ b.size) : UInt16 :=
  BigEndian.decode16 b[offset] b[offset + 1]

/-- The four bytes at `offset` as a number. -/
def word32 (b : ByteArray) (offset : Nat) (h : offset + 4 ≤ b.size) : UInt32 :=
  BigEndian.decode32 b[offset] b[offset + 1] b[offset + 2] b[offset + 3]

/-- The `size` bytes at `offset`. -/
def readBytes (b : ByteArray) (offset size : Nat) : Except ClassError ByteArray :=
  if offset + size ≤ b.size then
    .ok (b.extract offset (offset + size))
  else
    .error (pastEnd b offset size)

/-- The byte at `offset`. -/
def readU8 (b : ByteArray) (offset : Nat) : Except ClassError UInt8 :=
  if h : offset + 1 ≤ b.size then
    .ok b[offset]
  else
    .error (pastEnd b offset 1)

/-- The two bytes at `offset` as a number, if they are there. -/
def readU16 (b : ByteArray) (offset : Nat) : Except ClassError UInt16 :=
  if h : offset + 2 ≤ b.size then
    .ok (word16 b offset h)
  else
    .error (pastEnd b offset 2)

/-- The four bytes at `offset` as a number, if they are there. -/
def readU32 (b : ByteArray) (offset : Nat) : Except ClassError UInt32 :=
  if h : offset + 4 ≤ b.size then
    .ok (word32 b offset h)
  else
    .error (pastEnd b offset 4)

/-- A read of bytes succeeds exactly when they lie inside. -/
theorem readBytes_eq_ok_iff {b : ByteArray} {offset size : Nat} {r : ByteArray} :
    readBytes b offset size = .ok r ↔
      offset + size ≤ b.size ∧ r = b.extract offset (offset + size) := by
  unfold readBytes
  split
  next h => simp [h, eq_comm]
  next h => simp [h]

/-- A failed read of bytes reports the end that it wanted. -/
theorem readBytes_eq_error_iff {b : ByteArray} {offset size : Nat} {e : ClassError} :
    readBytes b offset size = .error e ↔
      b.size < offset + size ∧ e = pastEnd b offset size := by
  unfold readBytes
  split
  next h => simp [Nat.not_lt.mpr h]
  next h => simp [Nat.not_le.mp h, eq_comm]

theorem readU8_of_le {b : ByteArray} {offset : Nat} (h : offset + 1 ≤ b.size) :
    readU8 b offset = .ok b[offset] := by
  simp [readU8, h]

theorem readU16_of_le {b : ByteArray} {offset : Nat} (h : offset + 2 ≤ b.size) :
    readU16 b offset = .ok (word16 b offset h) := by
  simp [readU16, h]

theorem readU32_of_le {b : ByteArray} {offset : Nat} (h : offset + 4 ≤ b.size) :
    readU32 b offset = .ok (word32 b offset h) := by
  simp [readU32, h]

theorem readU8_of_lt {b : ByteArray} {offset : Nat} (h : b.size < offset + 1) :
    readU8 b offset = .error (pastEnd b offset 1) := by
  simp [readU8, show ¬ offset + 1 ≤ b.size by omega]

theorem readU16_of_lt {b : ByteArray} {offset : Nat} (h : b.size < offset + 2) :
    readU16 b offset = .error (pastEnd b offset 2) := by
  simp [readU16, show ¬ offset + 2 ≤ b.size by omega]

theorem readU32_of_lt {b : ByteArray} {offset : Nat} (h : b.size < offset + 4) :
    readU32 b offset = .error (pastEnd b offset 4) := by
  simp [readU32, show ¬ offset + 4 ≤ b.size by omega]

end ClassRelay.ClassFile
