import ClassRelay.Bytes.Basic

/-!
# Messages

A `Message` is a payload that was received. A payload that is not empty is stored with **one
more zero byte** behind it, so that a text can be handed on as a zero-terminated string without
being copied. The views below undo that; `bytes_ofPayload` says that no payload is changed by
being stored.
-/

namespace ClassRelay

/-- Bytes are stored as a message is: none at all, or something and a zero behind it. -/
def IsTerminated (stored : ByteArray) : Prop :=
  stored = ByteArray.empty ∨ ∃ payload : ByteArray, payload.size ≠ 0 ∧ stored = payload.push 0

/-- A received payload. -/
structure Message where
  stored : ByteArray
  isTerminated : IsTerminated stored
  deriving DecidableEq

namespace Message

/-- The message without a payload. -/
def empty : Message := ⟨ByteArray.empty, .inl rfl⟩

/-- A message that is not given has no payload. -/
instance : Inhabited Message := ⟨empty⟩

/-- The message of a payload. -/
def ofPayload (payload : ByteArray) : Message :=
  if h : payload.size = 0 then empty else ⟨payload.push 0, .inr ⟨payload, h, rfl⟩⟩

/-- The size of the payload. -/
def size (m : Message) : Nat := m.stored.size - 1

/-- Whether the payload is empty. -/
def isEmpty (m : Message) : Bool := m.stored.size = 0

/-- The payload. -/
def bytes (m : Message) : ByteArray := m.stored.extract 0 m.size

/-- A message stands for its payload where bytes are asked for. -/
instance : Coe Message ByteArray := ⟨bytes⟩

/-- The payload, left over from what is stored when its last byte is dropped. -/
def release (m : Message) : ByteArray := ⟨m.stored.data.pop⟩

/-- The payload up to its first zero byte; nothing for the empty message. -/
def zeroTerminated? (m : Message) : Option ByteArray :=
  (m.stored.data.findIdx? (· = 0)).map fun stop => m.stored.extract 0 stop

/-- No payload is changed by being stored. -/
theorem bytes_ofPayload (payload : ByteArray) : (ofPayload payload).bytes = payload := by
  unfold ofPayload
  split
  next h => exact (ByteArray.size_eq_zero_iff.mp h).symm ▸ rfl
  next h =>
    apply ByteArray.ext_getElem
    · simp [bytes, size]
    · intro i hi hi'
      simp only [bytes, ByteArray.getElem_extract, Nat.zero_add]
      exact Array.getElem_push_lt hi'

end Message

end ClassRelay
