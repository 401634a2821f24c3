/-!
# Lists of buffers

A gathered write takes its bytes from several buffers, in order, and may take only some of
them. `Buffers.advance` is what is left to write: buffers that were taken whole are dropped,
empty ones behind them too, and the first one that is left is shortened.
-/

namespace ClassRelay.Buffers

/-- The number of bytes in a list of buffers. -/
def size : List ByteArray → Nat
  | [] => 0
  | b :: rest => b.size + size rest

/-- The bytes of a list of buffers, one buffer after the other. -/
def join : List ByteArray → ByteArray
  | [] => ByteArray.empty
  | b :: rest => b ++ join rest

/-- The buffers without their first `n` bytes; the first one that is left is not empty. -/
def advance (n : Nat) : List ByteArray → List ByteArray
  | [] => []
  | b :: rest =>
    if b.size ≤ n then advance (n - b.size) rest else b.extract n b.size :: rest

@[simp] theorem size_join (bufs : List ByteArray) : (join bufs).size = size bufs := by
  induction bufs with
  | nil => rfl
  | cons b rest ih => simp [join, size, ih]

theorem join_append (bufs bufs' : List ByteArray) :
    join (bufs ++ bufs') = join bufs ++ join bufs' := by
  induction bufs with
  | nil => rw [List.nil_append, join, ByteArray.empty_append]
  | cons b rest ih => rw [List.cons_append, join, join, ih, ByteArray.append_assoc]

/-- What is left has as many bytes fewer as were taken. -/
theorem size_advance (n : Nat) (bufs : List ByteArray) :
    size (advance n bufs) = size bufs - n := by
  induction bufs generalizing n with
  | nil => simp [advance, size]
  | cons b rest ih =>
    simp only [advance]
    split
    next h =>
      rw [ih]
      simp only [size]
      omega
    next h =>
      simp only [size, ByteArray.size_extract]
      omega

/-- Nothing is left exactly when every byte was taken. -/
theorem advance_eq_nil_iff {n : Nat} {bufs : List ByteArray} :
    advance n bufs = [] ↔ size bufs ≤ n := by
  induction bufs generalizing n with
  | nil => simp [advance, size]
  | cons b rest ih =>
    simp only [advance, size]
    split
    next h =>
      rw [ih]
      omega
    next h =>
      simp only [reduceCtorEq, false_iff]
      omega

end ClassRelay.Buffers
