import ClassRelay.Channel.Transport
import ClassRelay.Stream.Basic

/-!
# Moving whole buffers over a stream

A byte stream moves chunks; `StreamTransport` makes a transport of it by asking again.

* `fill` reads until its buffer is full. It asks for the rest only, so nothing behind the
  buffer is read, and a full buffer asks for nothing. A read that gives no byte is the end of
  the stream.
* `writeAll` writes until no byte is left, and then flushes once. A write that takes no byte is
  an error; a request without bytes is flushed without any write.

Both try again when they are interrupted. An interrupted flush is **not** tried again.
-/

namespace ClassRelay

namespace ByteStream

variable {σ : Type} [ByteStream σ]

/-- The stream ended before the buffer was full. -/
def endedEarly : IoError := ⟨.unexpectedEof, "failed to fill whole buffer"⟩

/-- The stream took no byte of a write. -/
def tookNothing : IoError := ⟨.writeZero, "write_vectored returned 0"⟩

/-- Reads until `n` bytes are there, behind those already read. -/
def fillFrom {n : Nat} (got : Chunk n) (s : σ) : Except IoError (Chunk n) × σ :=
  if got.size = n then (.ok got, s)
  else
    match _h : read (n - got.size) s with
    | (.error e, s') =>
      if e.kind = .interrupted then fillFrom got s' else (.error e, s')
    | (.ok chunk, s') =>
      if chunk.size = 0 then (.error endedEarly, s') else fillFrom (got.append chunk) s'
termination_by (n - got.size, interrupts s)
decreasing_by
  · exact Prod.Lex.right _ (interrupts_read _h ‹_›)
  · have := got.size_le
    have := chunk.size_le
    apply Prod.Lex.left
    simp only [Chunk.size_append]
    simp only [Chunk.size] at *
    omega

/-- Reads exactly `n` bytes. -/
def fill (n : Nat) (s : σ) : Except IoError (Chunk n) × σ :=
  fillFrom (Chunk.empty n) s

/-- Writes the bytes that are left, after those already written, and flushes. -/
def writeFrom (written : Nat) (left : List ByteArray) (s : σ) : Except IoError Nat × σ :=
  if left = [] then
    match flush s with
    | (.error e, s') => (.error e, s')
    | (.ok (), s') => (.ok written, s')
  else
    match _h : write left s with
    | (.error e, s') =>
      if e.kind = .interrupted then writeFrom written left s' else (.error e, s')
    | (.ok taken, s') =>
      if taken.val = 0 then (.error tookNothing, s')
      else writeFrom (written + taken.val) (Buffers.advance taken.val left) s'
termination_by (Buffers.size left, interrupts s)
decreasing_by
  · exact Prod.Lex.right _ (interrupts_write _h ‹_›)
  · have := taken.isLt
    apply Prod.Lex.left
    rw [Buffers.size_advance]
    omega

/-- Writes all buffers, and tells how many bytes they hold. -/
def writeAll (bufs : List ByteArray) (s : σ) : Except IoError Nat × σ :=
  writeFrom 0 (Buffers.advance 0 bufs) s

end ByteStream

/-- A transport over a byte stream. -/
structure StreamTransport (σ : Type) where
  stream : σ

instance {σ : Type} [ByteStream σ] : Transport (StreamTransport σ) where
  writeAll bufs t :=
    let (sent, s) := ByteStream.writeAll bufs t.stream
    (sent, ⟨s⟩)
  fill n t :=
    let (chunk, s) := ByteStream.fill n t.stream
    (chunk.map fun c => (n, c), ⟨s⟩)

end ClassRelay
