import ClassRelay.Bytes.Buffers
import ClassRelay.Bytes.Chunk
import ClassRelay.IoError

/-!
# Byte streams

A `ByteStream` moves bytes in whatever amounts it likes. A read gives at most as many bytes as
were asked for, and none at all means that the stream has ended. A gathered write takes at most
what the buffers hold, from their front. Either may fail instead, and a failure of the kind
`interrupted` asks for another try.

**Interruptions run out.** A stream that interrupted its callers for ever could never be read
or written, so every stream bounds the interruptions that it still has in store: `interrupts`
decreases whenever a read or a write is interrupted. Retrying is therefore a loop that ends.
-/

namespace ClassRelay

/-- Streams of bytes with states in `σ`. Each operation gives its result and the state after. -/
class ByteStream (σ : Type) where
  /-- Reads at most `n` bytes; none at all at the end of the stream. -/
  read : (n : Nat) → σ → Except IoError (Chunk n) × σ
  /-- Takes bytes from the front of buffers, and tells how many it took. -/
  write : (bufs : List ByteArray) → σ → Except IoError (Fin (Buffers.size bufs + 1)) × σ
  /-- Passes on what was taken and is still held back. -/
  flush : σ → Except IoError Unit × σ
  /-- A bound on the interruptions that are still to come. -/
  interrupts : σ → Nat
  /-- An interrupted read uses up an interruption. -/
  interrupts_read : ∀ {n : Nat} {s s' : σ} {e : IoError},
    read n s = (.error e, s') → e.kind = .interrupted → interrupts s' < interrupts s
  /-- An interrupted write uses up an interruption. -/
  interrupts_write : ∀ {bufs : List ByteArray} {s s' : σ} {e : IoError},
    write bufs s = (.error e, s') → e.kind = .interrupted → interrupts s' < interrupts s

end ClassRelay
