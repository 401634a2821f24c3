import ClassRelay.Proofs.Stream.Delivery

/-!
# Streams that give bytes in pieces

The bytes that a stream holds for its reader can be given in many ways: in pieces of any size,
with interruptions anywhere between them. `ByteStream.Feeds` is what all these ways have in
common. Every byte comes, in order; a read that gives none has found the end; and no read fails
but by being interrupted. A transport over such a stream fails only where the bytes end
(`ByteStream.Feeds.deliversAll`).

A `Feed` is a stream whose pieces and interruptions are laid down in advance.
-/

namespace ClassRelay

namespace ByteStream

variable {σ : Type} [ByteStream σ] {pending : σ → ByteArray} {s s' : σ}

/-- Reads give the bytes that are `pending`, in order and to the last one, in pieces of any size;
they may be interrupted, and fail in no other way. -/
structure Feeds (pending : σ → ByteArray) : Prop where
  of_ok : ∀ {n : Nat} {chunk : Chunk n} {s s' : σ},
    read n s = (.ok chunk, s') → pending s = chunk.bytes ++ pending s'
  /-- Only at the end a read gives nothing. -/
  of_empty : ∀ {n : Nat} {chunk : Chunk n} {s s' : σ},
    read n s = (.ok chunk, s') → 0 < n → chunk.size = 0 → pending s = ByteArray.empty
  of_error : ∀ {n : Nat} {e : IoError} {s s' : σ},
    read n s = (.error e, s') → e.kind = .interrupted ∧ pending s' = pending s

namespace Feeds

theorem delivers (h : Feeds pending) : Delivers (· = endedEarly) pending where
  of_ok := h.of_ok
  of_empty _ _ _ := rfl
  of_error hread := by
    obtain ⟨hkind, hpending⟩ := h.of_error hread
    exact ⟨hpending, fun hne => absurd hkind hne⟩

/-- Reading again and again fails only when all bytes have come. -/
theorem pending_of_fillFrom {n : Nat} {got : Chunk n} {e : IoError} (h : Feeds pending)
    (hfill : fillFrom got s = (.error e, s')) : pending s' = ByteArray.empty := by
  fun_induction fillFrom got s with
  | case1 => cases hfill
  | case2 got s hfull e t hread hkind ih => exact ih hfill
  | case3 got s hfull e t hread hkind => exact absurd (h.of_error hread).1 hkind
  | case4 got s hfull chunk t hread hempty =>
    cases hfill
    have hle : got.size ≤ n := got.size_le
    have hend := h.of_empty hread (by omega) hempty
    rw [h.of_ok hread] at hend
    exact (ByteArray.append_eq_empty_iff.mp hend).2
  | case5 got s hfull chunk t hread hempty ih => exact ih hfill

/-- **A transport over such a stream fails only where the bytes end.** -/
theorem deliversAll (h : Feeds pending) :
    DeliversAll (· = endedEarly) fun t : StreamTransport σ => pending t.stream where
  toDelivers := h.delivers.transport
  lt_of_error := by
    intro n e t t' hfill
    obtain ⟨answer, hfrom, hanswer⟩ := exists_fillFrom_of_fill hfill
    obtain ⟨more, hpending, -, herror⟩ := h.delivers.of_fillFrom hfrom
    cases answer with
    | ok chunk => cases hanswer
    | error e' =>
      obtain ⟨-, hlt⟩ := herror e' rfl
      rw [Chunk.size_empty, Nat.zero_add] at hlt
      rw [hpending, h.pending_of_fillFrom hfrom, ByteArray.append_empty]
      exact hlt

end Feeds

end ByteStream

/-! ### Pieces laid down in advance -/

/-- What a stream does at a read: it gives the front of some bytes, or is interrupted. -/
inductive Feed.Turn
  | gives (bytes : ByteArray) (size_ne : bytes.size ≠ 0)
  | interrupts
  deriving DecidableEq

/-- A stream that reads its turns one after the other. -/
structure Feed where
  turns : List Feed.Turn
  deriving DecidableEq

namespace Feed

/-- The bytes of a turn. -/
def Turn.bytes : Turn → ByteArray
  | gives bytes _ => bytes
  | interrupts => ByteArray.empty

/-- All bytes of a feed. -/
def bytes (s : Feed) : ByteArray :=
  Buffers.join (s.turns.map Turn.bytes)

/-- What one read gives. Of a piece that does not fit, the rest stays for the next read. -/
def read (n : Nat) (s : Feed) : Except IoError (Chunk n) × Feed :=
  match s.turns with
  | [] => (.ok (Chunk.empty n), s)
  | .interrupts :: turns => (.error ⟨.interrupted, "interrupted"⟩, ⟨turns⟩)
  | .gives bytes size_ne :: turns =>
    if h : bytes.size ≤ n then
      (.ok ⟨bytes, h⟩, ⟨turns⟩)
    else
      let rest := bytes.extract n bytes.size
      have hrest : rest.size ≠ 0 := by
        rw [ByteArray.size_extract]
        omega
      (.ok (Chunk.ofPrefix n bytes), ⟨.gives rest hrest :: turns⟩)

/-- **One read of a feed**: the end, an interruption, a whole piece, or the front of one. -/
theorem read_cases (n : Nat) (s : Feed) :
    (s.bytes = ByteArray.empty ∧ s.read n = (.ok (Chunk.empty n), s)) ∨
    (∃ e : IoError, ∃ s' : Feed, e.kind = .interrupted ∧ s'.turns.length < s.turns.length ∧
      s.bytes = s'.bytes ∧ s.read n = (.error e, s')) ∨
    ∃ (chunk : Chunk n) (s' : Feed), (0 < n → chunk.size ≠ 0) ∧
      s.bytes = chunk.bytes ++ s'.bytes ∧ s.read n = (.ok chunk, s') := by
  obtain ⟨turns⟩ := s
  cases turns with
  | nil => exact .inl ⟨rfl, rfl⟩
  | cons turn turns =>
    cases turn with
    | interrupts =>
      exact .inr (.inl ⟨_, ⟨turns⟩, rfl, Nat.lt_succ_self _, ByteArray.empty_append, rfl⟩)
    | gives b hb =>
      refine .inr (.inr ?_)
      by_cases hle : b.size ≤ n
      · exact ⟨⟨b, hle⟩, ⟨turns⟩, fun _ => hb, rfl, dif_pos hle⟩
      · refine ⟨Chunk.ofPrefix n b, _, fun hpos => ?_, ?_, dif_neg hle⟩
        · rw [Chunk.size, Chunk.ofPrefix, ByteArray.size_extract]
          omega
        · calc b ++ Buffers.join (turns.map Turn.bytes)
              = b.extract 0 n ++ b.extract n b.size ++ Buffers.join (turns.map Turn.bytes) := by
                rw [← eq_extract_append_extract (Nat.le_of_not_le hle)]
            _ = _ := ByteArray.append_assoc

theorem length_read {n : Nat} {s s' : Feed} {e : IoError} (h : s.read n = (.error e, s')) :
    s'.turns.length < s.turns.length := by
  obtain ⟨-, hread⟩ | ⟨e', t, -, hlt, -, hread⟩ | ⟨chunk, t, -, -, hread⟩ := s.read_cases n <;>
    cases hread.symm.trans h
  exact hlt

/-- Nothing can be written to a feed. -/
instance : ByteStream Feed where
  read n s := s.read n
  write _ s := (.ok 0, s)
  flush s := (.ok (), s)
  interrupts s := s.turns.length
  interrupts_read h _ := length_read h
  interrupts_write h := by cases h

/-- However its bytes are cut into pieces, a feed gives them all. -/
theorem feeds : ByteStream.Feeds Feed.bytes where
  of_ok := by
    intro n chunk s s' h
    obtain ⟨hend, hread⟩ | ⟨e, t, -, -, -, hread⟩ | ⟨c, t, -, hbytes, hread⟩ := s.read_cases n <;>
      cases hread.symm.trans h
    · exact ByteArray.empty_append.symm
    · exact hbytes
  of_empty := by
    intro n chunk s s' h hpos hsize
    obtain ⟨hend, hread⟩ | ⟨e, t, -, -, -, hread⟩ | ⟨c, t, hne, -, hread⟩ := s.read_cases n <;>
      cases hread.symm.trans h
    · exact hend
    · exact absurd hsize (hne hpos)
  of_error := by
    intro n e s s' h
    obtain ⟨-, hread⟩ | ⟨e', t, hkind, -, hbytes, hread⟩ | ⟨c, t, -, -, hread⟩ := s.read_cases n <;>
      cases hread.symm.trans h
    exact ⟨hkind, hbytes.symm⟩

end Feed

end ClassRelay
