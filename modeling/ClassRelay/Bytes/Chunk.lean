import ClassRelay.Bytes.Basic

/-!
# Chunks

A `Chunk n` is what a read into a buffer of `n` bytes leaves in it: at most `n` bytes from the
front on, and zeros behind them. The zeros are not stored; `Chunk.padded` is the buffer with
them.
-/

namespace ClassRelay

/-- At most `n` bytes. -/
structure Chunk (n : Nat) where
  bytes : ByteArray
  size_le : bytes.size ≤ n
  deriving DecidableEq

namespace Chunk

variable {n : Nat}

/-- No bytes. -/
def empty (n : Nat) : Chunk n := ⟨ByteArray.empty, Nat.zero_le n⟩

/-- The number of bytes in a chunk. -/
def size (c : Chunk n) : Nat := c.bytes.size

/-- As many of the bytes as fit. -/
def ofPrefix (n : Nat) (b : ByteArray) : Chunk n :=
  ⟨b.extract 0 n, by simp only [ByteArray.size_extract]; omega⟩

/-- A chunk followed by one that fits into the rest. -/
def append (c : Chunk n) (d : Chunk (n - c.size)) : Chunk n :=
  ⟨c.bytes ++ d.bytes, by
    have hc := c.size_le
    have hd := d.size_le
    simp only [size] at hd
    simp only [ByteArray.size_append]
    omega⟩

/-- A number of zero bytes. -/
def zeros (n : Nat) : ByteArray := ⟨Array.replicate n 0⟩

/-- The whole buffer: the bytes of the chunk and zeros up to its end. -/
def padded (c : Chunk n) : ByteArray :=
  c.bytes ++ zeros (n - c.size)

@[simp] theorem size_empty : (empty n).size = 0 := rfl

@[simp] theorem size_append (c : Chunk n) (d : Chunk (n - c.size)) :
    (c.append d).size = c.size + d.size := by
  simp [append, size]

@[simp] theorem size_zeros (n : Nat) : (zeros n).size = n := by
  simp [zeros, ByteArray.size]

@[simp] theorem size_padded (c : Chunk n) : c.padded.size = n := by
  have h := c.size_le
  simp only [padded, ByteArray.size_append, size_zeros, size]
  omega

/-- A chunk that fills its buffer needs no zeros. -/
theorem padded_of_size_eq {c : Chunk n} (h : c.size = n) : c.padded = c.bytes := by
  have hz : zeros 0 = ByteArray.empty := rfl
  simp [padded, h, hz]

end Chunk

end ClassRelay
