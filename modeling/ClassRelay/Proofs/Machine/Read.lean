import ClassRelay.ClassFile.Entry
import ClassRelay.Proofs.Machine.Word

/-!
# Reading class bytes on a machine

The reads of class bytes and the decoding of an entry, with machine words for offsets and sizes.
A read adds its size to its offset and looks whether the sum is a word at all, so that it works at
every offset. The decoding of an entry just adds; that its sums are exact follows from the byte
string being no larger than a machine can hold (`maxSize`) and from the tag byte in front of the
entry having been read.

Both agree with the reads on natural numbers (`readBytes_agrees`, `decode_agrees`).
-/

namespace ClassRelay.Machine

open BigEndian ClassFile

variable {b : ByteArray} {offset size : UInt64}

/-- The largest size of a byte string: of all words, only the lower half are sizes. -/
def maxSize : Nat := 9223372036854775807

/-- Behind the end of a byte string there is room for many more words. -/
theorem lt_size_of_le {n : Nat} (h : n ≤ maxSize + maxSize) : n < UInt64.size :=
  Nat.lt_of_le_of_lt h (by decide)

/-- So the sum of two places in byte strings is a word. -/
theorem exists_add_of_le {v w : UInt64} (hv : v.toNat ≤ maxSize) (hw : w.toNat ≤ maxSize) :
    ∃ u, add v w = .ok u ∧ u.toNat = v.toNat + w.toNat :=
  exists_add (lt_size_of_le (Nat.add_le_add hv hw))

/-! ### Reads -/

/-- The error of a read that does not fit. -/
def pastEnd (b : ByteArray) (offset size : UInt64) : ClassError :=
  .outOfBounds (saturatingSub (saturatingAdd offset size) 1).toNat b.size

/-- The `size` bytes at `offset`. -/
def readBytes (b : ByteArray) (offset size : UInt64) : Run ByteArray :=
  match checkedAdd offset size with
  | some stop =>
    if stop.toNat ≤ b.size then .ok (b.extract offset.toNat stop.toNat)
    else .error (.refused (pastEnd b offset size))
  | none => .error (.refused (pastEnd b offset size))

/-- The `size` bytes at `offset`, copied into a buffer of that size. -/
def readArray (b : ByteArray) (offset size : UInt64) : Run ByteArray := do
  let bytes ← readBytes b offset size
  if bytes.size = size.toNat then return bytes else throw (.fault .unequalSizes)

/-- The byte at `offset`. -/
def readU8 (b : ByteArray) (offset : UInt64) : Run UInt8 := do
  let bytes ← readArray b offset 1
  byteAt bytes 0

/-- The two bytes at `offset` as a number. -/
def readU16 (b : ByteArray) (offset : UInt64) : Run UInt16 := do
  let bytes ← readArray b offset 2
  return decode16 (← byteAt bytes 0) (← byteAt bytes 1)

/-- The four bytes at `offset` as a number. -/
def readU32 (b : ByteArray) (offset : UInt64) : Run UInt32 := do
  let bytes ← readArray b offset 4
  return decode32 (← byteAt bytes 0) (← byteAt bytes 1) (← byteAt bytes 2) (← byteAt bytes 3)

theorem pastEnd_eq : pastEnd b offset size = ClassFile.pastEnd b offset.toNat size.toNat := by
  have hmax : maxOffset < UInt64.size := by decide
  have hmin : min (offset.toNat + size.toNat) maxOffset ≤ maxOffset := Nat.min_le_right _ _
  have hsum : (saturatingAdd offset size).toNat = min (offset.toNat + size.toNat) maxOffset :=
    UInt64.toNat_ofNat_of_lt' (Nat.lt_of_le_of_lt hmin hmax)
  rw [pastEnd, ClassFile.pastEnd, saturatingSub, hsum,
    UInt64.toNat_ofNat_of_lt' (Nat.lt_of_le_of_lt (Nat.sub_le _ _) (Nat.lt_of_le_of_lt hmin hmax))]
  rfl

theorem readBytes_of_le (h : offset.toNat + size.toNat ≤ b.size) (hb : b.size ≤ maxSize) :
    readBytes b offset size = .ok (b.extract offset.toNat (offset.toNat + size.toNat)) := by
  have hlt : offset.toNat + size.toNat < UInt64.size := lt_size_of_le (by omega)
  rw [readBytes, checkedAdd, if_pos hlt]
  dsimp only
  rw [UInt64.toNat_ofNat_of_lt' hlt, if_pos h]

theorem readBytes_of_lt (h : b.size < offset.toNat + size.toNat) :
    readBytes b offset size = .error (.refused (ClassFile.pastEnd b offset.toNat size.toNat)) := by
  rw [readBytes, checkedAdd, pastEnd_eq]
  split
  next stop hstop =>
    split at hstop
    next hlt =>
      cases hstop
      rw [UInt64.toNat_ofNat_of_lt' hlt, if_neg (Nat.not_le.mpr h)]
    next => cases hstop
  next => rfl

/-- **Reads agree**, at every offset and for every size. -/
theorem readBytes_agrees (hb : b.size ≤ maxSize) : Agrees Eq (readBytes b offset size)
    (ClassFile.readBytes b offset.toNat size.toNat) := by
  rw [ClassFile.readBytes]
  split
  next h =>
    rw [readBytes_of_le h hb]
    exact .ok rfl
  next h =>
    rw [readBytes_of_lt (Nat.not_le.mp h)]
    exact .refused

theorem readArray_of_le (h : offset.toNat + size.toNat ≤ b.size) (hb : b.size ≤ maxSize) :
    readArray b offset size = .ok (b.extract offset.toNat (offset.toNat + size.toNat)) := by
  have hsize : (b.extract offset.toNat (offset.toNat + size.toNat)).size = size.toNat := by
    rw [ByteArray.size_extract]
    omega
  rw [readArray, readBytes_of_le h hb]
  exact if_pos hsize

theorem readArray_of_lt (h : b.size < offset.toNat + size.toNat) :
    readArray b offset size = .error (.refused (ClassFile.pastEnd b offset.toNat size.toNat)) := by
  rw [readArray, readBytes_of_lt h]
  rfl

/-- A byte of what was read is a byte of the whole. -/
private theorem byteAt_extract {start stop : Nat} {place : UInt64} (h : stop ≤ b.size)
    (hplace : start + place.toNat < stop) :
    byteAt (b.extract start stop) place = .ok (b[start + place.toNat]) := by
  have hlt : place.toNat < (b.extract start stop).size := by
    rw [ByteArray.size_extract]
    omega
  rw [byteAt_of_lt hlt, ByteArray.getElem_extract]

theorem readU8_of_le (h : offset.toNat + 1 ≤ b.size) (hb : b.size ≤ maxSize) :
    readU8 b offset = .ok b[offset.toNat] := by
  rw [readU8, readArray_of_le h hb]
  exact byteAt_extract h (Nat.lt_succ_self _)

theorem readU16_of_le (h : offset.toNat + 2 ≤ b.size) (hb : b.size ≤ maxSize) :
    readU16 b offset = .ok (word16 b offset.toNat h) := by
  have hread : readArray b offset 2 = .ok (b.extract offset.toNat (offset.toNat + 2)) :=
    readArray_of_le h hb
  have hbyte := fun place => @byteAt_extract b offset.toNat (offset.toNat + 2) place h
  rw [readU16, hread]
  dsimp only [bind, Except.bind]
  rw [hbyte 0 (Nat.add_lt_add_left (by decide) _), hbyte 1 (Nat.add_lt_add_left (by decide) _)]
  rfl

theorem readU32_of_le (h : offset.toNat + 4 ≤ b.size) (hb : b.size ≤ maxSize) :
    readU32 b offset = .ok (word32 b offset.toNat h) := by
  have hread : readArray b offset 4 = .ok (b.extract offset.toNat (offset.toNat + 4)) :=
    readArray_of_le h hb
  have hbyte := fun place => @byteAt_extract b offset.toNat (offset.toNat + 4) place h
  rw [readU32, hread]
  dsimp only [bind, Except.bind]
  rw [hbyte 0 (Nat.add_lt_add_left (by decide) _), hbyte 1 (Nat.add_lt_add_left (by decide) _),
    hbyte 2 (Nat.add_lt_add_left (by decide) _), hbyte 3 (Nat.add_lt_add_left (by decide) _)]
  rfl

/-- A byte that can be read lies inside. -/
theorem readU8_agrees (hb : b.size ≤ maxSize) :
    Agrees (fun v w => v = w ∧ offset.toNat < b.size) (readU8 b offset)
      (ClassFile.readU8 b offset.toNat) := by
  rcases Nat.lt_or_ge b.size (offset.toNat + 1) with hlt | hle
  · rw [readU8, readArray_of_lt hlt, ClassFile.readU8_of_lt hlt]
    exact .refused
  · rw [readU8_of_le hle hb, ClassFile.readU8_of_le hle]
    exact .ok ⟨rfl, hle⟩

theorem readU16_agrees (hb : b.size ≤ maxSize) :
    Agrees Eq (readU16 b offset) (ClassFile.readU16 b offset.toNat) := by
  rcases Nat.lt_or_ge b.size (offset.toNat + 2) with hlt | hle
  · rw [readU16, readArray_of_lt hlt, ClassFile.readU16_of_lt hlt]
    exact .refused
  · rw [readU16_of_le hle hb, ClassFile.readU16_of_le hle]
    exact .ok rfl

theorem readU32_agrees (hb : b.size ≤ maxSize) :
    Agrees Eq (readU32 b offset) (ClassFile.readU32 b offset.toNat) := by
  rcases Nat.lt_or_ge b.size (offset.toNat + 4) with hlt | hle
  · rw [readU32, readArray_of_lt hlt, ClassFile.readU32_of_lt hlt]
    exact .refused
  · rw [readU32_of_le hle hb, ClassFile.readU32_of_le hle]
    exact .ok rfl

/-! ### Entries -/

/-- The text of the entry at `offset`: its length behind the tag byte, and its bytes. -/
def readText (b : ByteArray) (offset : UInt64) : Run ByteArray := do
  let size ← readU16 b (← add offset 1)
  readBytes b (← add offset 3) size.toUInt64

/-- The entry at `offset` with a known tag, whose fields stand at `payload`. -/
def decodePayload (tag : Tag) (b : ByteArray) (offset payload : UInt64) : Run Entry :=
  match tag with
  | .utf8 => .utf8 <$> readText b offset
  | .classRef => .classRef <$> readU16 b payload
  | .stringRef => .stringRef <$> readU16 b payload
  | .methodType => .methodType <$> readU16 b payload
  | .methodHandle => do
    let kind ← readU8 b payload
    let index ← readU16 b (← add payload 1)
    return .methodHandle kind index
  | .moduleRef => .moduleRef <$> readU16 b payload
  | .packageRef => .packageRef <$> readU16 b payload
  | .wide tag => do
    let high ← readU32 b payload
    let low ← readU32 b (← add payload 4)
    return .wide tag high low
  | .word tag => .word tag <$> readU32 b payload

/-- The entry at `offset`. -/
def decode (b : ByteArray) (offset : UInt64) : Run Entry := do
  let number ← readU8 b offset
  match Tag.ofNumber? number with
  | none => .unknown number <$> readU32 b (← add offset 1)
  | some tag => decodePayload tag b offset (← add offset 1)

section Entries

theorem readText_agrees (h : offset.toNat ≤ maxSize) (hb : b.size ≤ maxSize) :
    Agrees Eq (readText b offset) (Entry.readText b (offset.toNat + 1)) := by
  obtain ⟨start, hadd, (hstart : start.toNat = offset.toNat + 1)⟩ :=
    exists_add_of_le (w := 1) h (by decide)
  obtain ⟨text, hadd', (htext : text.toNat = offset.toNat + 3)⟩ :=
    exists_add_of_le (w := 3) h (by decide)
  rw [readText, hadd, Entry.readText, ← hstart]
  refine (readU16_agrees hb).bind ?_
  rintro size _ rfl
  rw [hadd', show start.toNat + 2 = text.toNat by omega, ← UInt16.toNat_toUInt64]
  exact readBytes_agrees hb

theorem decodePayload_agrees {tag : Tag} {payload : UInt64} (h : payload.toNat ≤ maxSize)
    (hb : b.size ≤ maxSize) (hpayload : payload.toNat = offset.toNat + 1) :
    Agrees Eq (decodePayload tag b offset payload)
      (Entry.decodePayload tag b (offset.toNat + 1)) := by
  rw [← hpayload]
  cases tag with
  | utf8 =>
    have htext := @readText_agrees b offset (by omega) hb
    rw [← hpayload] at htext
    exact htext.map fun _ _ => congrArg _
  | classRef | stringRef | methodType | moduleRef | packageRef =>
    exact (readU16_agrees hb).map fun _ _ => congrArg _
  | word tag => exact (readU32_agrees hb).map fun _ _ => congrArg _
  | methodHandle =>
    obtain ⟨next, hadd, (hnext : next.toNat = payload.toNat + 1)⟩ :=
      exists_add_of_le (w := 1) h (by decide)
    rw [decodePayload, Entry.decodePayload, hadd, ← hnext]
    refine (readU8_agrees hb).bind ?_
    rintro kind _ ⟨rfl, -⟩
    refine (readU16_agrees hb).bind ?_
    rintro index _ rfl
    exact .ok rfl
  | wide tag =>
    obtain ⟨next, hadd, (hnext : next.toNat = payload.toNat + 4)⟩ :=
      exists_add_of_le (w := 4) h (by decide)
    rw [decodePayload, Entry.decodePayload, hadd, ← hnext]
    refine (readU32_agrees hb).bind ?_
    rintro high _ rfl
    refine (readU32_agrees hb).bind ?_
    rintro low _ rfl
    exact .ok rfl

/-- **The decoding of an entry agrees**, at every offset: what is added to the offset is added
behind a byte that was read. -/
theorem decode_agrees (hb : b.size ≤ maxSize) :
    Agrees Eq (decode b offset) (Entry.decode b offset.toNat) := by
  refine (readU8_agrees hb).bind ?_
  rintro number _ ⟨rfl, hlt⟩
  obtain ⟨payload, hadd, (hpayload : payload.toNat = offset.toNat + 1)⟩ :=
    exists_add_of_le (v := offset) (w := 1) (by omega) (by decide)
  rw [hadd]
  cases Tag.ofNumber? number with
  | none =>
    rw [← hpayload]
    exact (readU32_agrees hb).map fun _ _ => congrArg _
  | some tag => exact decodePayload_agrees (by omega) hb hpayload

end Entries

end ClassRelay.Machine
