import ClassRelay.Stream.Basic

/-!
# Streams in memory

A `MemoryStream` is bytes with one position, for reads and writes alike. Reads start at the
position; one that finds nothing there leaves it at the end of the bytes. Writes overwrite from
the position on and lengthen the bytes where they reach past the end; a gap in front of the
position is filled with zeros. It takes every write whole and never fails.
-/

namespace ClassRelay

/-- Bytes with a position, which may lie past their end. -/
structure MemoryStream where
  bytes : ByteArray
  position : Nat
  deriving DecidableEq

namespace MemoryStream

/-- A stream over bytes, at their start. -/
def ofBytes (b : ByteArray) : MemoryStream := ⟨b, 0⟩

/-- Moves the position. -/
def seek (position : Nat) (s : MemoryStream) : MemoryStream :=
  { s with position := position }

/-- The bytes at the position, as many as fit, and the stream behind them. -/
def read (n : Nat) (s : MemoryStream) : Chunk n × MemoryStream :=
  let chunk := Chunk.ofPrefix n (s.bytes.extract s.position (min (s.position + n) s.bytes.size))
  (chunk, s.seek (min s.position s.bytes.size + chunk.size))

/-- The stream with bytes written at its position. -/
def write (data : ByteArray) (s : MemoryStream) : MemoryStream :=
  let front := s.bytes.extract 0 s.position
  let gap := Chunk.zeros (s.position - s.bytes.size)
  let stop := s.position + data.size
  ⟨front ++ gap ++ data ++ s.bytes.extract stop s.bytes.size, stop⟩

instance : ByteStream MemoryStream where
  read n s :=
    let (chunk, s') := s.read n
    (.ok chunk, s')
  write bufs s := (.ok (Fin.last _), s.write (Buffers.join bufs))
  flush s := (.ok (), s)
  interrupts _ := 0
  interrupts_read h := by simp at h
  interrupts_write h := by simp at h

end MemoryStream

end ClassRelay
