import ClassRelay.ClassFile.Read
import ClassRelay.Proofs.Bytes.Segment

/-!
# Reads as segments

What a read gives is what stands at its offset: reading a number succeeds with that number
exactly when its written form stands there (`readU8_eq_ok_iff`, `readU16_eq_ok_iff`,
`readU32_eq_ok_iff`), and reading bytes exactly when they do (`readBytes_eq_ok_iff_holdsAt`).
A failed read wanted a byte that is past the end (`pastEnd_of_le`).
-/

namespace ClassRelay

open BigEndian

/-! ### Results in sequence -/

section Results

variable {ε α β : Type}

theorem bind_eq_ok_iff {r : Except ε α} {f : α → Except ε β} {y : β} :
    r >>= f = .ok y ↔ ∃ x, r = .ok x ∧ f x = .ok y := by
  cases r with
  | error e => simp [bind, Except.bind]
  | ok x => simp [bind, Except.bind]

theorem map_eq_ok_iff {r : Except ε α} {f : α → β} {y : β} :
    f <$> r = .ok y ↔ ∃ x, r = .ok x ∧ f x = y := by
  cases r with
  | error e => simp [Functor.map, Except.map]
  | ok x => simp [Functor.map, Except.map]

theorem exists_eq_ok_of_isOk {r : Except ε α} (h : r.isOk = true) : ∃ x, r = .ok x := by
  cases r with
  | error e => cases h
  | ok x => exact ⟨x, rfl⟩

theorem exists_eq_error_of_isOk {r : Except ε α} (h : r.isOk = false) : ∃ e, r = .error e := by
  cases r with
  | error e => exact ⟨e, rfl⟩
  | ok x => cases h

end Results

namespace ClassFile

variable {b x : ByteArray} {offset : Nat}

/-! ### Words and their written form -/

/-- The two bytes that make up a word are its written form. -/
theorem encode16_word16 (h : offset + 2 ≤ b.size) :
    encode16 (word16 b offset h) = b.extract offset (offset + 2) := by
  rw [word16, encode16_decode16, ByteArray.extract_add_two h]
  rfl

/-- The four bytes that make up a word are its written form. -/
theorem encode32_word32 (h : offset + 4 ≤ b.size) :
    encode32 (word32 b offset h) = b.extract offset (offset + 4) := by
  rw [word32, encode32_decode32, ByteArray.extract_add_four h]
  rfl

theorem word16_eq_iff {v : UInt16} (h : offset + 2 ≤ b.size) :
    word16 b offset h = v ↔ HoldsAt b offset (encode16 v) := by
  rw [← encode16_inj, encode16_word16]
  exact ⟨fun heq => ⟨h, heq⟩, HoldsAt.extract_eq⟩

/-- A word stands where it is read. -/
theorem holdsAt_word16 (h : offset + 2 ≤ b.size) :
    HoldsAt b offset (encode16 (word16 b offset h)) :=
  (word16_eq_iff h).mp rfl

/-! ### Reads -/

theorem readU8_eq_ok_iff {v : UInt8} :
    readU8 b offset = .ok v ↔ HoldsAt b offset (ByteArray.empty.push v) := by
  rw [readU8]
  split
  next h =>
    have hpush : b.extract offset (offset + 1) = ByteArray.empty.push b[offset] :=
      ByteArray.extract_add_one h
    have hinj : ByteArray.empty.push b[offset] = ByteArray.empty.push v ↔ b[offset] = v :=
      ⟨fun heq => by simpa [ByteArray.ext_iff] using heq, fun heq => by rw [heq]⟩
    rw [Except.ok.injEq, ← hinj, ← hpush]
    exact ⟨fun heq => ⟨h, heq⟩, HoldsAt.extract_eq⟩
  next h => exact iff_of_false (by simp) fun hv => h hv.le_size

theorem readU16_eq_ok_iff {v : UInt16} :
    readU16 b offset = .ok v ↔ HoldsAt b offset (encode16 v) := by
  rw [readU16]
  split
  next h => rw [Except.ok.injEq, word16_eq_iff]
  next h => exact iff_of_false (by simp) fun hv => h hv.le_size

theorem readU32_eq_ok_iff {v : UInt32} :
    readU32 b offset = .ok v ↔ HoldsAt b offset (encode32 v) := by
  rw [readU32]
  split
  next h =>
    rw [Except.ok.injEq, ← encode32_inj, encode32_word32]
    exact ⟨fun heq => ⟨h, heq⟩, HoldsAt.extract_eq⟩
  next h => exact iff_of_false (by simp) fun hv => h hv.le_size

theorem readBytes_eq_ok_iff_holdsAt {size : Nat} {s : ByteArray} :
    readBytes b offset size = .ok s ↔ s.size = size ∧ HoldsAt b offset s := by
  rw [readBytes_eq_ok_iff]
  constructor
  · rintro ⟨hle, rfl⟩
    exact ⟨by rw [ByteArray.size_extract]; omega, holdsAt_extract (by omega) hle⟩
  · rintro ⟨rfl, hs⟩
    exact ⟨hs.le_size, hs.extract_eq.symm⟩

/-- The byte that a failed read reports is the last one it wanted, if that fits into an error. -/
theorem pastEnd_of_le {size : Nat} (h : offset + size ≤ maxOffset) :
    pastEnd b offset size = .outOfBounds (offset + size - 1) b.size := by
  rw [pastEnd, Nat.min_eq_left h]

end ClassFile

end ClassRelay
