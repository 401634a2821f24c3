import ClassRelay.Proofs.Bytes.Segment
import ClassRelay.Proofs.Channel.Delivery
import ClassRelay.Stream.Transport

/-!
# Streams that keep bytes in order

A byte stream moves bytes in whatever amounts it likes. If it keeps them in order, then so does
the transport over it: the chunks of a read add up to its buffer, and what a write takes at a
time adds up to its buffers (`ByteStream.Delivers.transport`, `ByteStream.Accepts.transport`).
What the stream neither gives nor takes stays as it was.
-/

namespace ClassRelay

/-! ### Taking from the front of buffers -/

/-- What is left of buffers is what they hold behind the bytes that were taken. -/
private theorem Buffers.exists_join_eq {n : Nat} {bufs : List ByteArray} (h : n ≤ size bufs) :
    ∃ front, front.size = n ∧ join bufs = front ++ join (advance n bufs) := by
  induction bufs generalizing n with
  | nil =>
    obtain rfl : n = 0 := Nat.le_zero.mp h
    exact ⟨ByteArray.empty, rfl, rfl⟩
  | cons b rest ih =>
    rw [size] at h
    rw [advance, join]
    split
    next hle =>
      obtain ⟨front, hsize, hjoin⟩ := ih (n := n - b.size) (by omega)
      refine ⟨b ++ front, ?_, ?_⟩
      · rw [ByteArray.size_append, hsize]
        omega
      · rw [hjoin, ByteArray.append_assoc]
    next hlt =>
      have hle : n ≤ b.size := Nat.le_of_not_le hlt
      refine ⟨b.extract 0 n, size_extract_zero hle, ?_⟩
      rw [join, ← ByteArray.append_assoc, ← eq_extract_append_extract hle]

theorem Buffers.join_eq_append_join_advance {n : Nat} {bufs : List ByteArray}
    (h : n ≤ size bufs) : join bufs = (join bufs).extract 0 n ++ join (advance n bufs) := by
  obtain ⟨front, rfl, hjoin⟩ := exists_join_eq h
  have hfront : (join bufs).extract 0 front.size = front := by
    rw [hjoin, ByteArray.extract_append_eq_left rfl]
  rw [hfront]
  exact hjoin

/-- Buffers from which nothing was taken are left. -/
theorem Buffers.join_advance_zero (bufs : List ByteArray) :
    join (advance 0 bufs) = join bufs := by
  have h := join_eq_append_join_advance (Nat.zero_le (size bufs))
  rw [ByteArray.extract_same, ByteArray.empty_append] at h
  exact h.symm

/-- What is left of buffers is nothing, or holds some bytes. -/
theorem Buffers.size_advance_pos {n : Nat} {bufs : List ByteArray} (h : advance n bufs ≠ []) :
    0 < size (advance n bufs) := by
  rw [Ne, advance_eq_nil_iff] at h
  rw [size_advance]
  omega

namespace ByteStream

variable {σ : Type} [ByteStream σ] {fails : IoError → Prop} {s s' : σ}

/-! ### Reading -/

/-- Reads take their bytes from the front of those `pending`, and errors take none. -/
structure Delivers (fails : IoError → Prop) (pending : σ → ByteArray) : Prop where
  of_ok : ∀ {n : Nat} {chunk : Chunk n} {s s' : σ},
    read n s = (.ok chunk, s') → pending s = chunk.bytes ++ pending s'
  of_empty : ∀ {n : Nat} {chunk : Chunk n} {s s' : σ},
    read n s = (.ok chunk, s') → 0 < n → chunk.size = 0 → fails endedEarly
  of_error : ∀ {n : Nat} {e : IoError} {s s' : σ},
    read n s = (.error e, s') → pending s' = pending s ∧ (e.kind ≠ .interrupted → fails e)

section Reading

variable {n : Nat} {got : Chunk n} {answer : Except IoError (Chunk n)}

private theorem pos_of_not_full (h : ¬ got.size = n) : 0 < n - got.size := by
  have hle : got.size ≤ n := got.size_le
  omega

/-- The bytes that a read asks for again and again come off the pending ones, in order. -/
theorem Delivers.of_fillFrom {pending : σ → ByteArray} (h : Delivers fails pending)
    (hfill : fillFrom got s = (answer, s')) : ∃ more, pending s = more ++ pending s' ∧
      (∀ chunk, answer = .ok chunk → chunk.size = n ∧ chunk.bytes = got.bytes ++ more) ∧
      (∀ e, answer = .error e → fails e ∧ got.size + more.size < n) := by
  fun_induction fillFrom got s with
  | case1 got s hfull =>
    cases hfill
    refine ⟨ByteArray.empty, ByteArray.empty_append.symm, ?_, ?_⟩
    · rintro _ ⟨⟩
      exact ⟨hfull, ByteArray.append_empty.symm⟩
    · rintro _ ⟨⟩
  | case2 got s hfull e t hread hkind ih =>
    rw [← (h.of_error hread).1]
    exact ih hfill
  | case3 got s hfull e t hread hkind =>
    cases hfill
    obtain ⟨hpending, hfails⟩ := h.of_error hread
    refine ⟨ByteArray.empty, ?_, ?_, ?_⟩
    · rw [hpending, ByteArray.empty_append]
    · rintro _ ⟨⟩
    · rintro _ ⟨⟩
      exact ⟨hfails hkind, Nat.lt_of_sub_pos (pos_of_not_full hfull)⟩
  | case4 got s hfull chunk t hread hempty =>
    cases hfill
    refine ⟨chunk.bytes, h.of_ok hread, ?_, ?_⟩
    · rintro _ ⟨⟩
    · rintro _ ⟨⟩
      have hpos := pos_of_not_full hfull
      have hsize : chunk.bytes.size = 0 := hempty
      exact ⟨h.of_empty hread hpos hempty, by omega⟩
  | case5 got s hfull chunk t hread hempty ih =>
    obtain ⟨more, hpending, hok, herror⟩ := ih hfill
    refine ⟨chunk.bytes ++ more, ?_, fun c hc => ?_, fun e he => ?_⟩
    · rw [h.of_ok hread, hpending, ByteArray.append_assoc]
    · obtain ⟨hsize, hbytes⟩ := hok c hc
      exact ⟨hsize, hbytes.trans ByteArray.append_assoc⟩
    · obtain ⟨hfails, hlt⟩ := herror e he
      rw [Chunk.size_append] at hlt
      rw [ByteArray.size_append, ← Nat.add_assoc]
      exact ⟨hfails, hlt⟩

/-- What one read leaves alone, reading again and again leaves alone. -/
theorem fillFrom_keeps {α : Type} {f : σ → α}
    (h : ∀ {n answer} {s s' : σ}, read n s = (answer, s') → f s' = f s)
    (hfill : fillFrom got s = (answer, s')) : f s' = f s := by
  fun_induction fillFrom got s with
  | case1 got s hfull =>
    cases hfill
    rfl
  | case2 got s hfull e t hread hkind ih => exact (ih hfill).trans (h hread)
  | case3 got s hfull e t hread hkind =>
    cases hfill
    exact h hread
  | case4 got s hfull chunk t hread hempty =>
    cases hfill
    exact h hread
  | case5 got s hfull chunk t hread hempty ih => exact (ih hfill).trans (h hread)

end Reading

/-! ### Writing -/

/-- Writes add what they take, in order, to the bytes `written`; errors and flushes add none. -/
structure Accepts (fails : IoError → Prop) (written : σ → ByteArray) : Prop where
  of_ok : ∀ {bufs : List ByteArray} {taken : Fin (Buffers.size bufs + 1)} {s s' : σ},
    write bufs s = (.ok taken, s') →
      written s' = written s ++ (Buffers.join bufs).extract 0 taken.val
  of_none : ∀ {bufs : List ByteArray} {taken : Fin (Buffers.size bufs + 1)} {s s' : σ},
    write bufs s = (.ok taken, s') → 0 < Buffers.size bufs → taken.val = 0 → fails tookNothing
  of_error : ∀ {bufs : List ByteArray} {e : IoError} {s s' : σ},
    write bufs s = (.error e, s') → written s' = written s ∧ (e.kind ≠ .interrupted → fails e)
  of_flush : ∀ {answer : Except IoError Unit} {s s' : σ},
    flush s = (answer, s') → written s' = written s ∧ ∀ e, answer = .error e → fails e

section Writing

variable {count : Nat} {left : List ByteArray} {answer : Except IoError Nat}

/-- The bytes that a write offers again and again are added to the written ones, in order. -/
theorem Accepts.of_writeFrom {written : σ → ByteArray} (h : Accepts fails written)
    (hleft : left ≠ [] → 0 < Buffers.size left) (hwrite : writeFrom count left s = (answer, s')) :
    ∃ b rest, Buffers.join left = b ++ rest ∧ written s' = written s ++ b ∧
      (∀ total, answer = .ok total → total = count + Buffers.size left ∧ rest = ByteArray.empty) ∧
      (∀ e, answer = .error e → fails e) := by
  fun_induction writeFrom count left s with
  | case1 count s e t hflush =>
    cases hwrite
    obtain ⟨hwritten, hfails⟩ := h.of_flush hflush
    refine ⟨ByteArray.empty, ByteArray.empty, rfl, ?_, ?_, ?_⟩
    · rw [hwritten, ByteArray.append_empty]
    · rintro _ ⟨⟩
    · rintro _ ⟨⟩
      exact hfails e rfl
  | case2 count s t hflush =>
    cases hwrite
    refine ⟨ByteArray.empty, ByteArray.empty, rfl, ?_, ?_, ?_⟩
    · rw [(h.of_flush hflush).1, ByteArray.append_empty]
    · rintro _ ⟨⟩
      exact ⟨rfl, rfl⟩
    · rintro _ ⟨⟩
  | case3 count left s hnil e t hsome hkind ih =>
    rw [← (h.of_error hsome).1]
    exact ih hleft hwrite
  | case4 count left s hnil e t hsome hkind =>
    cases hwrite
    obtain ⟨hwritten, hfails⟩ := h.of_error hsome
    refine ⟨ByteArray.empty, _, ByteArray.empty_append.symm, ?_, ?_, ?_⟩
    · rw [hwritten, ByteArray.append_empty]
    · rintro _ ⟨⟩
    · rintro _ ⟨⟩
      exact hfails hkind
  | case5 count left s hnil taken t hsome hzero =>
    cases hwrite
    have hwritten := h.of_ok hsome
    rw [hzero, ByteArray.extract_same] at hwritten
    refine ⟨ByteArray.empty, _, ByteArray.empty_append.symm, hwritten, ?_, ?_⟩
    · rintro _ ⟨⟩
    · rintro _ ⟨⟩
      exact h.of_none hsome (hleft hnil) hzero
  | case6 count left s hnil taken t hsome hzero ih =>
    have hle : taken.val ≤ Buffers.size left := Nat.le_of_lt_succ taken.isLt
    obtain ⟨b, rest, hjoin, hwritten, hok, herror⟩ := ih Buffers.size_advance_pos hwrite
    refine ⟨(Buffers.join left).extract 0 taken.val ++ b, rest, ?_, ?_, fun total htotal => ?_,
      herror⟩
    · rw [ByteArray.append_assoc, ← hjoin]
      exact Buffers.join_eq_append_join_advance hle
    · rw [hwritten, h.of_ok hsome, ByteArray.append_assoc]
    · obtain ⟨rfl, hrest⟩ := hok total htotal
      rw [Buffers.size_advance]
      exact ⟨by omega, hrest⟩

/-- What writes and flushes leave alone, writing again and again leaves alone. -/
theorem writeFrom_keeps {α : Type} {f : σ → α}
    (h : ∀ {bufs answer} {s s' : σ}, write bufs s = (answer, s') → f s' = f s)
    (hflush : ∀ {answer} {s s' : σ}, flush s = (answer, s') → f s' = f s)
    (hwrite : writeFrom count left s = (answer, s')) : f s' = f s := by
  fun_induction writeFrom count left s with
  | case1 count s e t hlast | case2 count s t hlast =>
    cases hwrite
    exact hflush hlast
  | case3 count left s hnil e t hsome hkind ih => exact (ih hwrite).trans (h hsome)
  | case4 count left s hnil e t hsome hkind =>
    cases hwrite
    exact h hsome
  | case5 count left s hnil taken t hsome hzero =>
    cases hwrite
    exact h hsome
  | case6 count left s hnil taken t hsome hzero ih => exact (ih hwrite).trans (h hsome)

end Writing

/-! ### The transport over a stream -/

section Transports

variable {t t' : StreamTransport σ}

theorem exists_fillFrom_of_fill {n : Nat} {answer : Except IoError (Nat × Chunk n)}
    (h : Transport.fill n t = (answer, t')) : ∃ answer',
      fillFrom (Chunk.empty n) t.stream = (answer', t'.stream) ∧
        answer = answer'.map fun chunk => (n, chunk) := by
  cases h
  exact ⟨_, rfl, rfl⟩

theorem writeFrom_of_writeAll {bufs : List ByteArray} {answer : Except IoError Nat}
    (h : Transport.writeAll bufs t = (answer, t')) :
    writeFrom 0 (Buffers.advance 0 bufs) t.stream = (answer, t'.stream) := by
  cases h
  rfl

theorem Delivers.transport {pending : σ → ByteArray} (h : Delivers fails pending) :
    ClassRelay.Delivers fails fun t : StreamTransport σ => pending t.stream where
  of_ok := by
    intro n count chunk t t' hfill
    obtain ⟨answer, hfrom, hanswer⟩ := exists_fillFrom_of_fill hfill
    obtain ⟨more, hpending, hok, -⟩ := h.of_fillFrom hfrom
    cases answer with
    | error e => cases hanswer
    | ok c =>
      cases hanswer
      obtain ⟨hsize, hbytes⟩ := hok _ rfl
      refine ⟨rfl, hsize, ?_⟩
      rw [hpending, hbytes]
      exact congrArg (· ++ _) ByteArray.empty_append.symm
  of_error := by
    intro n e t t' hfill
    obtain ⟨answer, hfrom, hanswer⟩ := exists_fillFrom_of_fill hfill
    obtain ⟨more, hpending, -, herror⟩ := h.of_fillFrom hfrom
    cases answer with
    | ok c => cases hanswer
    | error e' =>
      cases hanswer
      obtain ⟨hfails, hlt⟩ := herror _ rfl
      rw [Chunk.size_empty, Nat.zero_add] at hlt
      exact ⟨hfails, more, hlt, hpending⟩

theorem Accepts.transport {written : σ → ByteArray} (h : Accepts fails written) :
    ClassRelay.Accepts fails fun t : StreamTransport σ => written t.stream where
  of_ok := by
    intro bufs count t t' hwrite
    obtain ⟨b, rest, hb, hwritten, hok, -⟩ :=
      h.of_writeFrom Buffers.size_advance_pos (writeFrom_of_writeAll hwrite)
    obtain ⟨rfl, rfl⟩ := hok count rfl
    rw [Buffers.join_advance_zero] at hb
    rw [hwritten, hb, ByteArray.append_empty, Buffers.size_advance]
    exact ⟨by omega, rfl⟩
  of_error := by
    intro bufs e t t' hwrite
    obtain ⟨b, rest, hb, hwritten, -, herror⟩ :=
      h.of_writeFrom Buffers.size_advance_pos (writeFrom_of_writeAll hwrite)
    rw [Buffers.join_advance_zero] at hb
    exact ⟨herror e rfl, b, rest, hb, hwritten⟩

end Transports

end ByteStream

end ClassRelay
