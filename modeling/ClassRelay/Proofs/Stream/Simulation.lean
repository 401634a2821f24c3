import ClassRelay.Proofs.Channel.Outcomes
import ClassRelay.Stream.Transport

/-!
# Streams that do the same

A stream **simulates** another one if it answers every call as that one does, or interrupts the
call and leaves the other stream as it was. A loop that tries again when it is interrupted cannot
tell the two apart: it gives the same result, and leaves the other stream in the same state
(`ByteStream.Simulates.fillFrom_eq`, `ByteStream.Simulates.writeFrom_eq`). So transports over the
two do the same, and so do channels over these (`Channel.send_along`, `Channel.receive_along`,
`Channel.exchange_along`).

The **flush** of a simulating stream must answer at once, because nothing tries it again.
-/

namespace ClassRelay

namespace ByteStream

variable {σ τ : Type} [ByteStream σ] [ByteStream τ]

/-! ### One turn of a loop -/

section Turns

variable {s s' : σ} {n written : Nat} {got : Chunk n} {left : List ByteArray}

theorem fillFrom_of_full (h : got.size = n) : fillFrom got s = (.ok got, s) := by
  rw [fillFrom, if_pos h]

theorem fillFrom_of_ne (h : ¬ got.size = n) : fillFrom got s =
    match read (n - got.size) s with
    | (.error e, s') => if e.kind = .interrupted then fillFrom got s' else (.error e, s')
    | (.ok chunk, s') =>
      if chunk.size = 0 then (.error endedEarly, s') else fillFrom (got.append chunk) s' := by
  rw [fillFrom, if_neg h]
  split
  next heq => rw [heq]
  next heq => rw [heq]

theorem writeFrom_nil_of_ok (h : flush s = (.ok (), s')) :
    writeFrom written [] s = (.ok written, s') := by
  rw [writeFrom, if_pos rfl, h]

theorem writeFrom_nil_of_error {e : IoError} (h : flush s = (.error e, s')) :
    writeFrom written [] s = (.error e, s') := by
  rw [writeFrom, if_pos rfl, h]

theorem writeFrom_of_ne (h : left ≠ []) : writeFrom written left s =
    match write left s with
    | (.error e, s') => if e.kind = .interrupted then writeFrom written left s' else (.error e, s')
    | (.ok taken, s') =>
      if taken.val = 0 then (.error tookNothing, s')
      else writeFrom (written + taken.val) (Buffers.advance taken.val left) s' := by
  rw [writeFrom, if_neg h]
  split
  next heq => rw [heq]
  next heq => rw [heq]

end Turns

/-! ### Simulation -/

/-- A call was interrupted, and the stream behind `f` does not know of it. -/
def Interrupts {α : Type} (f : τ → σ) (answer : Except IoError α) (t t' : τ) : Prop :=
  f t' = f t ∧ ∃ e, answer = .error e ∧ e.kind = .interrupted

/-- Seen through `f`, reads and writes do what they do on the other stream, or are interrupted;
flushes do what they do there. -/
structure Simulates (f : τ → σ) : Prop where
  of_read : ∀ {n : Nat} {answer : Except IoError (Chunk n)} {t t' : τ},
    read n t = (answer, t') → read n (f t) = (answer, f t') ∨ Interrupts f answer t t'
  of_write : ∀ {bufs : List ByteArray} {answer : Except IoError (Fin (Buffers.size bufs + 1))}
    {t t' : τ},
    write bufs t = (answer, t') → write bufs (f t) = (answer, f t') ∨ Interrupts f answer t t'
  of_flush : ∀ {answer : Except IoError Unit} {t t' : τ},
    flush t = (answer, t') → flush (f t) = (answer, f t')

namespace Simulates

variable {f : τ → σ} {t t' : τ}

theorem of_read_ok {n : Nat} {chunk : Chunk n} (h : Simulates f)
    (hread : read n t = (.ok chunk, t')) : read n (f t) = (.ok chunk, f t') := by
  obtain hsame | ⟨-, e, he, -⟩ := h.of_read hread
  · exact hsame
  · cases he

theorem of_read_error {n : Nat} {e : IoError} (h : Simulates f)
    (hread : read n t = (.error e, t')) (hkind : e.kind ≠ .interrupted) :
    read n (f t) = (.error e, f t') := by
  obtain hsame | ⟨-, _, ⟨⟩, hkind'⟩ := h.of_read hread
  · exact hsame
  · exact absurd hkind' hkind

theorem of_write_ok {bufs : List ByteArray} {taken : Fin (Buffers.size bufs + 1)}
    (h : Simulates f) (hwrite : write bufs t = (.ok taken, t')) :
    write bufs (f t) = (.ok taken, f t') := by
  obtain hsame | ⟨-, e, he, -⟩ := h.of_write hwrite
  · exact hsame
  · cases he

theorem of_write_error {bufs : List ByteArray} {e : IoError} (h : Simulates f)
    (hwrite : write bufs t = (.error e, t')) (hkind : e.kind ≠ .interrupted) :
    write bufs (f t) = (.error e, f t') := by
  obtain hsame | ⟨-, _, ⟨⟩, hkind'⟩ := h.of_write hwrite
  · exact hsame
  · exact absurd hkind' hkind

/-- **Filling a buffer** does the same. -/
theorem fillFrom_eq {n : Nat} {got : Chunk n} {answer : Except IoError (Chunk n)}
    (h : Simulates f) (hfill : fillFrom got t = (answer, t')) :
    fillFrom got (f t) = (answer, f t') := by
  fun_induction fillFrom got t with
  | case1 got t hfull =>
    cases hfill
    exact fillFrom_of_full hfull
  | case2 got t hfull e u hread hkind ih =>
    rw [← ih hfill]
    -- The other stream is interrupted as well, or it has stood still.
    obtain hsame | ⟨hidle, -⟩ := h.of_read hread
    · rw [fillFrom_of_ne hfull, hsame]
      exact if_pos hkind
    · rw [hidle]
  | case3 got t hfull e u hread hkind =>
    cases hfill
    rw [fillFrom_of_ne hfull, h.of_read_error hread hkind]
    exact if_neg hkind
  | case4 got t hfull chunk u hread hempty =>
    cases hfill
    rw [fillFrom_of_ne hfull, h.of_read_ok hread]
    exact if_pos hempty
  | case5 got t hfull chunk u hread hempty ih =>
    rw [← ih hfill, fillFrom_of_ne hfull, h.of_read_ok hread]
    exact if_neg hempty

/-- **Writing buffers** does the same. -/
theorem writeFrom_eq {written : Nat} {left : List ByteArray} {answer : Except IoError Nat}
    (h : Simulates f) (hwrite : writeFrom written left t = (answer, t')) :
    writeFrom written left (f t) = (answer, f t') := by
  fun_induction writeFrom written left t with
  | case1 written t e u hflush =>
    cases hwrite
    exact writeFrom_nil_of_error (h.of_flush hflush)
  | case2 written t u hflush =>
    cases hwrite
    exact writeFrom_nil_of_ok (h.of_flush hflush)
  | case3 written left t hnil e u hstep hkind ih =>
    rw [← ih hwrite]
    obtain hsame | ⟨hidle, -⟩ := h.of_write hstep
    · rw [writeFrom_of_ne hnil, hsame]
      exact if_pos hkind
    · rw [hidle]
  | case4 written left t hnil e u hstep hkind =>
    cases hwrite
    rw [writeFrom_of_ne hnil, h.of_write_error hstep hkind]
    exact if_neg hkind
  | case5 written left t hnil taken u hstep hzero =>
    cases hwrite
    rw [writeFrom_of_ne hnil, h.of_write_ok hstep]
    exact if_pos hzero
  | case6 written left t hnil taken u hstep hzero ih =>
    rw [← ih hwrite, writeFrom_of_ne hnil, h.of_write_ok hstep]
    exact if_neg hzero

theorem fill_eq (h : Simulates f) (n : Nat) (t : τ) :
    fill n (f t) = ((fill n t).1, f (fill n t).2) :=
  h.fillFrom_eq rfl

theorem writeAll_eq (h : Simulates f) (bufs : List ByteArray) (t : τ) :
    writeAll bufs (f t) = ((writeAll bufs t).1, f (writeAll bufs t).2) :=
  h.writeFrom_eq rfl

end Simulates

end ByteStream

/-! ### Transports and channels -/

/-- Seen through `g`, a transport does what the other one does. -/
structure Transport.Mirrors {τ υ : Type} [Transport τ] [Transport υ] (g : τ → υ) : Prop where
  writeAll_eq : ∀ (bufs : List ByteArray) (t : τ),
    writeAll bufs (g t) = ((writeAll bufs t).1, g (writeAll bufs t).2)
  fill_eq : ∀ (n : Nat) (t : τ), fill n (g t) = ((fill n t).1, g (fill n t).2)

namespace StreamTransport

variable {σ : Type} [ByteStream σ]

theorem writeAll_eq (bufs : List ByteArray) (t : StreamTransport σ) : Transport.writeAll bufs t =
    ((ByteStream.writeAll bufs t.stream).1, ⟨(ByteStream.writeAll bufs t.stream).2⟩) :=
  rfl

theorem fill_eq (n : Nat) (t : StreamTransport σ) : Transport.fill n t =
    ((ByteStream.fill n t.stream).1.map fun chunk => (n, chunk),
      ⟨(ByteStream.fill n t.stream).2⟩) :=
  rfl

end StreamTransport

/-- Transports over streams that do the same do the same. -/
theorem ByteStream.Simulates.transport {σ τ : Type} [ByteStream σ] [ByteStream τ] {f : τ → σ}
    (h : Simulates f) :
    Transport.Mirrors fun t : StreamTransport τ => (⟨f t.stream⟩ : StreamTransport σ) where
  writeAll_eq bufs t := by
    rw [StreamTransport.writeAll_eq, h.writeAll_eq]
    rfl
  fill_eq n t := by
    rw [StreamTransport.fill_eq, h.fill_eq]
    rfl

namespace Channel

variable {τ υ : Type} [Transport τ] [Transport υ] {g : τ → υ}

/-- The channel over the transport that is seen through `g`. -/
def along (g : τ → υ) (c : Channel τ) : Channel υ :=
  ⟨g c.transport, c.maxPayload⟩

end Channel

/-- The outcome on the channel over the transport that is seen through `g`. -/
def Outcome.along {τ υ α : Type} (g : τ → υ) (o : Outcome τ α) : Outcome υ α :=
  ⟨o.result, o.channel.along g, o.events⟩

namespace Channel

variable {τ υ : Type} [Transport τ] [Transport υ] {g : τ → υ}

theorem write_along (h : Transport.Mirrors g) (c : Channel τ) (bufs : List ByteArray) :
    (c.along g).write bufs = ((c.write bufs).1, (c.write bufs).2.along g) := by
  rw [write, along, h.writeAll_eq, write]
  generalize Transport.writeAll bufs c.transport = answer
  obtain ⟨_ | count, t⟩ := answer <;> rfl

theorem fill_along (h : Transport.Mirrors g) (c : Channel τ) (n : Nat) :
    (c.along g).fill n = ((c.fill n).1, (c.fill n).2.along g) := by
  rw [fill, along, h.fill_eq, fill]
  generalize Transport.fill n c.transport = answer
  obtain ⟨_ | ⟨count, chunk⟩, t⟩ := answer <;> rfl

/-- **Sending** does the same. -/
theorem send_along (h : Transport.Mirrors g) (c : Channel τ) (payload : ByteArray) :
    (c.along g).send payload = (c.send payload).along g := by
  have hsize : (c.along g).checkSize payload.size = c.checkSize payload.size := rfl
  rw [send, hsize, send]
  cases c.checkSize payload.size with
  | error e => rfl
  | ok size =>
    dsimp only
    rw [write_along h]
    generalize c.write [BigEndian.encode32 size, payload] = answer
    obtain ⟨_ | sent, c'⟩ := answer <;> rfl

theorem receiveBody_along (h : Transport.Mirrors g) (c : Channel τ) (size : Nat) :
    (c.along g).receiveBody size = (c.receiveBody size).along g := by
  rw [receiveBody, receiveBody]
  split
  next => rfl
  next =>
    rw [fill_along h]
    generalize c.fill size = answer
    obtain ⟨_ | body, c'⟩ := answer <;> rfl

/-- **Receiving** does the same. -/
theorem receive_along (h : Transport.Mirrors g) (c : Channel τ) :
    (c.along g).receive = c.receive.along g := by
  rw [receive, fill_along h, receive]
  generalize c.fill headerSize = answer
  obtain ⟨_ | header, c'⟩ := answer
  · rfl
  · have hsize : (c'.along g).checkSize (announced header).toNat =
        c'.checkSize (announced header).toNat := rfl
    dsimp only
    rw [hsize]
    cases c'.checkSize (announced header).toNat with
    | error e => rfl
    | ok size => exact receiveBody_along h c' size.toNat

/-- **Exchanging** does the same. -/
theorem exchange_along (h : Transport.Mirrors g) (c : Channel τ) (request : ByteArray) :
    (c.along g).exchange request = (c.exchange request).along g := by
  rw [exchange, send_along h, exchange]
  generalize c.send request = sent
  obtain ⟨_ | count, c', events⟩ := sent
  · rfl
  · dsimp only [Outcome.along]
    rw [receive_along h]
    rfl

end Channel

end ClassRelay
