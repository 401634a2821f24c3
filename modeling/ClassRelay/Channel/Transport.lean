import ClassRelay.Bytes.Chunk
import ClassRelay.IoError

/-!
# Transports

A `Transport` moves whole buffers or fails. Both operations report how many bytes they moved,
and nothing keeps a transport from reporting another number than was asked for: a caller that
needs all bytes has to look.
-/

namespace ClassRelay

/-- Transports with states in `τ`. Each operation gives its result and the state after. -/
class Transport (τ : Type) where
  /-- Writes all buffers, in order, as one write, and reports the bytes moved. -/
  writeAll : (bufs : List ByteArray) → τ → Except IoError Nat × τ
  /-- Fills a buffer of `n` bytes, and reports the bytes moved. -/
  fill : (n : Nat) → τ → Except IoError (Nat × Chunk n) × τ

end ClassRelay
