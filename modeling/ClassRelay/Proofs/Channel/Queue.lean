import ClassRelay.Proofs.Channel.Delivery
import ClassRelay.Stream.Transport

/-!
# Byte queues

The plainest transport that keeps bytes in order: what is written goes to the end of a queue, and
what is read comes from its front. A read that asks for more than there is takes nothing, and
fails as it does at the end of a stream.
-/

namespace ClassRelay

/-- Bytes that were written and are not yet read. -/
structure ByteQueue where
  bytes : ByteArray
  deriving DecidableEq

namespace ByteQueue

variable {n : Nat} {q : ByteQueue}

instance : Transport ByteQueue where
  writeAll bufs q := (.ok (Buffers.size bufs), ⟨q.bytes ++ Buffers.join bufs⟩)
  fill n q :=
    if n ≤ q.bytes.size then
      (.ok (n, Chunk.ofPrefix n q.bytes), ⟨q.bytes.extract n q.bytes.size⟩)
    else
      (.error ByteStream.endedEarly, q)

theorem fill_of_le (h : n ≤ q.bytes.size) : Transport.fill n q =
    (.ok (n, Chunk.ofPrefix n q.bytes), ByteQueue.mk (q.bytes.extract n q.bytes.size)) :=
  if_pos h

theorem fill_of_lt (h : q.bytes.size < n) :
    Transport.fill n q = (.error ByteStream.endedEarly, q) :=
  if_neg (Nat.not_le.mpr h)

theorem acceptsAll : AcceptsAll ByteQueue.bytes where
  of_ok := by
    rintro bufs count q q' ⟨⟩
    exact ⟨rfl, rfl⟩
  of_error := by
    rintro bufs e q q' ⟨⟩

theorem deliversAll : DeliversAll (· = ByteStream.endedEarly) ByteQueue.bytes where
  of_ok := by
    intro n count chunk q q' h
    rcases Nat.lt_or_ge q.bytes.size n with hlt | hle
    · rw [fill_of_lt hlt] at h
      cases h
    · rw [fill_of_le hle] at h
      cases h
      refine ⟨rfl, ?_, ?_⟩
      · simp [Chunk.size, Chunk.ofPrefix, hle]
      · simp [Chunk.ofPrefix, hle]
  of_error := by
    intro n e q q' h
    rcases Nat.lt_or_ge q.bytes.size n with hlt | hle
    · rw [fill_of_lt hlt] at h
      cases h
      exact ⟨rfl, ByteArray.empty, Nat.zero_lt_of_lt hlt, ByteArray.empty_append.symm⟩
    · rw [fill_of_le hle] at h
      cases h
  lt_of_error := by
    intro n e q q' h
    rcases Nat.lt_or_ge q.bytes.size n with hlt | hle
    · exact hlt
    · rw [fill_of_le hle] at h
      cases h

end ByteQueue

end ClassRelay
