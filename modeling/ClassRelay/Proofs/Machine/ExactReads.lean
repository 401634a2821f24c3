import ClassRelay.Proofs.ClassFile.Reads
import ClassRelay.Proofs.Machine.Read

/-!
# Reads are exact

A read of class bytes succeeds exactly when what it wants **ends inside**, and gives the bytes that
stand there. Otherwise it names a byte that is not there: the last one that it wanted, if the end of
what it wanted is a word. Larger reads are made of smaller ones, two bytes of one and one, four of
two and two, with the most significant first.

Offsets and sizes are natural numbers here, and a machine with words of 64 bits ends every read in
the same way at every word (`ReadsExactly`, `reads_exact`). Near the largest word the offset of the
second half of a read is no word any more; there the read fails, as no bytes reach so far.
-/

namespace ClassRelay.ClassFile

open BigEndian

variable {b : ByteArray} {offset size : Nat}

/-! ### Reads and their halves -/

theorem readU8_eq_ok_iff_readBytes {v : UInt8} :
    readU8 b offset = .ok v ↔ readBytes b offset 1 = .ok (ByteArray.empty.push v) := by
  rw [readU8_eq_ok_iff, readBytes_eq_ok_iff_holdsAt]
  exact (and_iff_right rfl).symm

theorem readU16_eq_ok_iff_halves {v : UInt16} : readU16 b offset = .ok v ↔
    ∃ high low, readU8 b offset = .ok high ∧ readU8 b (offset + 1) = .ok low ∧
      v.toNat = 256 * high.toNat + low.toNat := by
  simp only [readU16_eq_ok_iff, readU8_eq_ok_iff]
  constructor
  · intro h
    obtain ⟨high, low, hv⟩ := exists_halves16 v
    rw [encode16_eq_append hv, holdsAt_append] at h
    exact ⟨high, low, h.1, h.2, hv⟩
  · rintro ⟨high, low, hhigh, hlow, hv⟩
    rw [encode16_eq_append hv, holdsAt_append]
    exact ⟨hhigh, hlow⟩

theorem readU32_eq_ok_iff_halves {v : UInt32} : readU32 b offset = .ok v ↔
    ∃ high low, readU16 b offset = .ok high ∧ readU16 b (offset + 2) = .ok low ∧
      v.toNat = 65536 * high.toNat + low.toNat := by
  simp only [readU32_eq_ok_iff, readU16_eq_ok_iff]
  constructor
  · intro h
    obtain ⟨high, low, hv⟩ := exists_halves32 v
    rw [encode32_eq_append hv, holdsAt_append] at h
    exact ⟨high, low, h.1, h.2, hv⟩
  · rintro ⟨high, low, hhigh, hlow, hv⟩
    rw [encode32_eq_append hv, holdsAt_append]
    exact ⟨hhigh, hlow⟩

/-! ### Reads that fail -/

/-- The byte that a failed read names is not there. -/
theorem exists_readBytes_error (hb : b.size ≤ Machine.maxSize) (h : b.size < offset + size) :
    ∃ i, readBytes b offset size = .error (.outOfBounds i b.size) ∧ b.size ≤ i ∧
      (offset + size < UInt64.size → 0 < size → i + 1 = offset + size) := by
  have hmax : Machine.maxSize < maxOffset := by decide
  have hsize : maxOffset + 1 = UInt64.size := rfl
  refine ⟨_, readBytes_eq_error_iff.mpr ⟨h, rfl⟩, by omega, fun hlt hpos => by omega⟩

/-- How class bytes are read, at every offset. -/
structure ReadsExactly (b : ByteArray) : Prop where
  /-- Bytes are read exactly if they lie inside. -/
  readBytes_ok_iff : ∀ offset size s, readBytes b offset size = .ok s ↔
    offset + size ≤ b.size ∧ s = b.extract offset (offset + size)
  /-- A read that fails names a byte that is not there, and if it fits the last one it wanted. -/
  readBytes_error : ∀ offset size, b.size < offset + size →
    ∃ i, readBytes b offset size = .error (.outOfBounds i b.size) ∧ b.size ≤ i ∧
      (offset + size < UInt64.size → 0 < size → i + 1 = offset + size)
  readU8_ok_iff : ∀ offset v,
    readU8 b offset = .ok v ↔ readBytes b offset 1 = .ok (ByteArray.empty.push v)
  /-- Two bytes are read as one and one. -/
  readU16_ok_iff : ∀ offset v, readU16 b offset = .ok v ↔
    ∃ high low, readU8 b offset = .ok high ∧ readU8 b (offset + 1) = .ok low ∧
      v.toNat = 256 * high.toNat + low.toNat
  /-- Four bytes are read as two and two. -/
  readU32_ok_iff : ∀ offset v, readU32 b offset = .ok v ↔
    ∃ high low, readU16 b offset = .ok high ∧ readU16 b (offset + 2) = .ok low ∧
      v.toNat = 65536 * high.toNat + low.toNat
  /-- A read fails if the offset of its last byte is no word. -/
  readU16_ne_ok : ∀ offset v, UInt64.size ≤ offset + 1 → readU16 b offset ≠ .ok v
  readU32_ne_ok : ∀ offset v, UInt64.size ≤ offset + 3 → readU32 b offset ≠ .ok v
  /-- In words, every read ends in the same way. -/
  readBytes_agrees : ∀ offset size : UInt64, Machine.Agrees Eq (Machine.readBytes b offset size)
    (readBytes b offset.toNat size.toNat)
  readU8_agrees : ∀ offset : UInt64,
    Machine.Agrees Eq (Machine.readU8 b offset) (readU8 b offset.toNat)
  readU16_agrees : ∀ offset : UInt64,
    Machine.Agrees Eq (Machine.readU16 b offset) (readU16 b offset.toNat)
  readU32_agrees : ∀ offset : UInt64,
    Machine.Agrees Eq (Machine.readU32 b offset) (readU32 b offset.toNat)

/-- **Reads are exact**, in bytes of every size that a machine can hold. -/
theorem reads_exact (hb : b.size ≤ Machine.maxSize) : ReadsExactly b where
  readBytes_ok_iff _ _ _ := readBytes_eq_ok_iff
  readBytes_error _ _ := exists_readBytes_error hb
  readU8_ok_iff _ _ := readU8_eq_ok_iff_readBytes
  readU16_ok_iff _ _ := readU16_eq_ok_iff_halves
  readU32_ok_iff _ _ := readU32_eq_ok_iff_halves
  readU16_ne_ok offset v hlarge hv := by
    have hle := (readU16_eq_ok_iff.mp hv).le_size
    rw [size_encode16] at hle
    have hlt : offset + 2 < UInt64.size := Machine.lt_size_of_le (by omega)
    omega
  readU32_ne_ok offset v hlarge hv := by
    have hle := (readU32_eq_ok_iff.mp hv).le_size
    rw [size_encode32] at hle
    have hlt : offset + 4 < UInt64.size := Machine.lt_size_of_le (by omega)
    omega
  readBytes_agrees _ _ := Machine.readBytes_agrees hb
  readU8_agrees _ := (Machine.readU8_agrees hb).mono fun _ _ h => h.1
  readU16_agrees _ := Machine.readU16_agrees hb
  readU32_agrees _ := Machine.readU32_agrees hb

/-- A number of four bytes, and the first half of one of two. -/
def cutNumber : ByteArray := ⟨#[0xCA, 0xFE, 0xBA, 0xBE, 0]⟩

/-- A read of no bytes succeeds at the end, and behind it names the byte in front of its offset. At
the largest word a read of two bytes fails as it does in natural numbers, where the number of its
second byte is no word. -/
theorem reads_exact_cutNumber : cutNumber.size ≤ Machine.maxSize ∧ ReadsExactly cutNumber ∧
    readU32 cutNumber 0 = .ok 0xCAFEBABE ∧ readU8 cutNumber 4 = .ok 0 ∧
    readU16 cutNumber 4 = .error (.outOfBounds 5 5) ∧
    readBytes cutNumber 5 0 = .ok ByteArray.empty ∧
    readBytes cutNumber 6 0 = .error (.outOfBounds 5 5) ∧
    Machine.readU16 cutNumber 0xFFFFFFFFFFFFFFFF =
      .error (.refused (.outOfBounds 0xFFFFFFFFFFFFFFFE 5)) :=
  ⟨by decide, reads_exact (by decide), rfl, rfl, rfl, rfl, rfl, rfl⟩

end ClassRelay.ClassFile
