import Mathlib
import ClassRelay.Proofs.Stream.Delivery
import ClassRelay.Proofs.Stream.Simulation
import ClassRelay.Stream.Memory

/-!
# Interruptions

`Interrupting σ` is any stream `σ` whose reads and writes are interrupted now and then, as often
and wherever a schedule says. The transport over it **does not show it**: results, and the stream
behind the interruptions, are those of the transport over `σ`; and so it is for channels. No
interruption of a read or of a write ever reaches a caller (`interruptions_invisible`).

An interruption of the **flush** does. `FlushInterrupting σ` is a stream whose next flush is
interrupted once. A request that would have gone well, and all bytes of which the stream has
taken, is then reported as failed, although another flush would have done.
-/

namespace ClassRelay

open ByteStream

/-! ### Interrupted reads and writes -/

/-- A stream, and what happens at the next reads and writes: each is passed on, or is interrupted
with a text. Behind the schedule, all are passed on. -/
structure Interrupting (σ : Type) where
  stream : σ
  schedule : List (Option String)

namespace Interrupting

variable {σ α : Type}

/-- A call of the stream, unless the schedule interrupts it. -/
def call (pass : σ → Except IoError α × σ) (t : Interrupting σ) :
    Except IoError α × Interrupting σ :=
  match t.schedule with
  | some text :: schedule => (.error ⟨.interrupted, text⟩, ⟨t.stream, schedule⟩)
  | none :: schedule =>
    let (answer, stream) := pass t.stream
    (answer, ⟨stream, schedule⟩)
  | [] =>
    let (answer, stream) := pass t.stream
    (answer, ⟨stream, []⟩)

/-- **One call**: it is passed on, or it is interrupted and the stream does not know of it. Either
way the schedule gets no longer, and shorter by an interruption. -/
theorem call_cases {pass : σ → Except IoError α × σ} {t t' : Interrupting σ}
    {answer : Except IoError α} (h : t.call pass = (answer, t')) :
    (pass t.stream = (answer, t'.stream) ∧ t'.schedule.length ≤ t.schedule.length) ∨
    (Interrupts stream answer t t' ∧ t'.schedule.length < t.schedule.length) := by
  obtain ⟨s, _ | ⟨_ | text, schedule⟩⟩ := t
  · cases h
    exact .inl ⟨rfl, Nat.le_refl _⟩
  · cases h
    exact .inl ⟨rfl, Nat.le_succ _⟩
  · cases h
    exact .inr ⟨⟨rfl, _, rfl, rfl⟩, Nat.lt_succ_self _⟩

variable [ByteStream σ]

instance : ByteStream (Interrupting σ) where
  read n := call (read n)
  write bufs := call (write bufs)
  flush t :=
    let (answer, stream) := flush t.stream
    (answer, ⟨stream, t.schedule⟩)
  interrupts t := interrupts t.stream + t.schedule.length
  interrupts_read h hkind := by
    obtain ⟨hpass, hle⟩ | ⟨⟨hidle, -⟩, hlt⟩ := call_cases h
    · have hless := interrupts_read hpass hkind
      omega
    · rw [hidle]
      omega
  interrupts_write h hkind := by
    obtain ⟨hpass, hle⟩ | ⟨⟨hidle, -⟩, hlt⟩ := call_cases h
    · have hless := interrupts_write hpass hkind
      omega
    · rw [hidle]
      omega

/-- But for interruptions, it does what the stream does. -/
theorem simulates : Simulates (stream : Interrupting σ → σ) where
  of_read h := by
    obtain ⟨hpass, -⟩ | ⟨hinterrupts, -⟩ := call_cases h
    · exact .inl hpass
    · exact .inr hinterrupts
  of_write h := by
    obtain ⟨hpass, -⟩ | ⟨hinterrupts, -⟩ := call_cases h
    · exact .inl hpass
    · exact .inr hinterrupts
  of_flush := by
    rintro answer t t' ⟨⟩
    rfl

/-- The transport over the stream without interruptions. -/
def calm (t : StreamTransport (Interrupting σ)) : StreamTransport σ :=
  ⟨t.stream.stream⟩

end Interrupting

/-! ### What reaches a caller -/

section Callers

variable {σ : Type} [ByteStream σ] {s s' : σ} {e : IoError}

/-- An interrupted read is tried again, whatever the stream. -/
theorem kind_ne_of_fillFrom {n : Nat} {got : Chunk n} (h : fillFrom got s = (.error e, s')) :
    e.kind ≠ .interrupted := by
  fun_induction fillFrom got s with
  | case1 => cases h
  | case2 got s hfull e' t hread hkind ih => exact ih h
  | case3 got s hfull e' t hread hkind =>
    cases h
    exact hkind
  | case4 got s hfull chunk t hread hempty =>
    cases h
    exact fun hkind => by cases hkind
  | case5 got s hfull chunk t hread hempty ih => exact ih h

/-- So is an interrupted write. An interruption that ends a request comes from the flush. -/
theorem exists_flush_of_writeFrom {written : Nat} {left : List ByteArray}
    (h : writeFrom written left s = (.error e, s')) (hkind : e.kind = .interrupted) :
    ∃ s₁, flush s₁ = (.error e, s') := by
  fun_induction writeFrom written left s with
  | case1 written s e' t hflush =>
    cases h
    exact ⟨s, hflush⟩
  | case2 written s t hflush => cases h
  | case3 written left s hnil e' t hstep hkind' ih => exact ih h
  | case4 written left s hnil e' t hstep hkind' =>
    cases h
    exact absurd hkind hkind'
  | case5 written left s hnil taken t hstep hzero =>
    cases h
    cases hkind
  | case6 written left s hnil taken t hstep hzero ih => exact ih h

theorem kind_ne_of_fill {n : Nat} {t : StreamTransport σ}
    (h : (Transport.fill n t).1 = .error e) : e.kind ≠ .interrupted := by
  have hfail : Transport.fill n t = (.error e, (Transport.fill n t).2) := Prod.ext h rfl
  obtain ⟨answer, hfill, hanswer⟩ := exists_fillFrom_of_fill hfail
  cases answer with
  | error e' =>
    cases hanswer
    exact kind_ne_of_fillFrom hfill
  | ok chunk => cases hanswer

/-- A receive fails as its transport does only where one of its reads does. -/
theorem exists_fill_of_receive {τ : Type} [Transport τ] {c : Channel τ}
    (h : c.receive.result = .error (.io e)) : ∃ n t, (Transport.fill n t : _ × τ).1 = .error e := by
  obtain ⟨calls, t, -, hfollows, hreceives⟩ := c.receives
  rw [h] at hreceives
  cases hreceives with
  | headerFailed =>
    obtain _ | _ | ⟨hheader, ⟨⟩⟩ := hfollows
    exact ⟨_, _, congrArg Prod.fst hheader⟩
  | bodyFailed =>
    obtain _ | _ | ⟨hheader, _ | _ | ⟨hbody, ⟨⟩⟩⟩ := hfollows
    exact ⟨_, _, congrArg Prod.fst hbody⟩

end Callers

/-! ### Interrupted flushes -/

/-- A stream, and whether its next flush is interrupted. -/
structure FlushInterrupting (σ : Type) where
  stream : σ
  pending : Bool

namespace FlushInterrupting

variable {σ : Type} [ByteStream σ] {s s' : σ}

/-- The interruption of a flush. -/
def interruption : IoError := ⟨.interrupted, "interrupted"⟩

instance : ByteStream (FlushInterrupting σ) where
  read n t :=
    let (answer, stream) := read n t.stream
    (answer, ⟨stream, t.pending⟩)
  write bufs t :=
    let (answer, stream) := write bufs t.stream
    (answer, ⟨stream, t.pending⟩)
  flush t :=
    if t.pending then (.error interruption, ⟨t.stream, false⟩)
    else
      let (answer, stream) := flush t.stream
      (answer, ⟨stream, false⟩)
  interrupts t := interrupts t.stream
  interrupts_read := by
    rintro n t t' e h hkind
    obtain ⟨h1, rfl⟩ := Prod.mk.inj h
    exact interrupts_read (Prod.ext h1 rfl) hkind
  interrupts_write := by
    rintro bufs t t' e h hkind
    obtain ⟨h1, rfl⟩ := Prod.mk.inj h
    exact interrupts_write (Prod.ext h1 rfl) hkind

theorem write_eq {bufs : List ByteArray} {answer : Except IoError (Fin (Buffers.size bufs + 1))}
    (h : write bufs s = (answer, s')) :
    write bufs (⟨s, true⟩ : FlushInterrupting σ) = (answer, ⟨s', true⟩) := by
  have hpass : write bufs (⟨s, true⟩ : FlushInterrupting σ) =
      ((write bufs s).1, ⟨(write bufs s).2, true⟩) := rfl
  rw [hpass, h]

/-- **An interrupted flush is not tried again.** Where all would have gone well, all bytes are
taken and the interruption is the result. -/
theorem writeFrom_of_ok {written total : Nat} {left : List ByteArray}
    (h : writeFrom written left s = (.ok total, s')) : ∃ s₁, flush s₁ = (.ok (), s') ∧
      writeFrom written left (⟨s, true⟩ : FlushInterrupting σ) =
        (.error interruption, ⟨s₁, false⟩) := by
  fun_induction writeFrom written left s with
  | case1 => cases h
  | case2 written s t hflush =>
    cases h
    exact ⟨s, hflush, writeFrom_nil_of_error rfl⟩
  | case3 written left s hnil e t hstep hkind ih =>
    rw [writeFrom_of_ne hnil, write_eq hstep]
    dsimp only
    rw [if_pos hkind]
    exact ih h
  | case4 | case5 => cases h
  | case6 written left s hnil taken t hstep hzero ih =>
    rw [writeFrom_of_ne hnil, write_eq hstep]
    dsimp only
    rw [if_neg hzero]
    exact ih h

end FlushInterrupting

/-! ### Who sees an interruption -/

/-- What interruptions of a stream change, and what they do not. -/
structure InterruptionsShow (σ : Type) [ByteStream σ] : Prop where
  /-- Interruptions of reads and writes change neither the result of the transport, nor what is
  read from the stream or written to it. -/
  transport : Transport.Mirrors
    (Interrupting.calm : StreamTransport (Interrupting σ) → StreamTransport σ)
  /-- Nor do they change anything for a channel. -/
  send (c : Channel (StreamTransport (Interrupting σ))) (payload : ByteArray) :
    (c.along Interrupting.calm).send payload = (c.send payload).along Interrupting.calm
  receive (c : Channel (StreamTransport (Interrupting σ))) :
    (c.along Interrupting.calm).receive = c.receive.along Interrupting.calm
  exchange (c : Channel (StreamTransport (Interrupting σ))) (request : ByteArray) :
    (c.along Interrupting.calm).exchange request = (c.exchange request).along Interrupting.calm
  /-- What is read never ends in an interruption. -/
  fill_ne (n : Nat) (t : StreamTransport σ) (e : IoError) :
    (Transport.fill n t).1 = .error e → e.kind ≠ .interrupted
  receive_ne (c : Channel (StreamTransport σ)) (e : IoError) :
    c.receive.result = .error (.io e) → e.kind ≠ .interrupted
  /-- What is written does so only if the flush is interrupted. -/
  of_writeAll (bufs : List ByteArray) (t : StreamTransport σ) (e : IoError) :
    (Transport.writeAll bufs t).1 = .error e → e.kind = .interrupted →
      ∃ s, flush s = (.error e, (Transport.writeAll bufs t).2.stream)
  /-- And then it always does: where all would have gone well, all bytes are taken, and the
  interruption is the result. -/
  of_flush (bufs : List ByteArray) (s s' : σ) (n : Nat) :
    Transport.writeAll bufs (StreamTransport.mk s) = (.ok n, ⟨s'⟩) →
      ∃ s₁, flush s₁ = (.ok (), s') ∧
        Transport.writeAll bufs (StreamTransport.mk (FlushInterrupting.mk s true)) =
          (.error FlushInterrupting.interruption, ⟨⟨s₁, false⟩⟩)

/-- **Interruptions are invisible**, except in a flush. -/
theorem interruptions_invisible {σ : Type} [ByteStream σ] : InterruptionsShow σ where
  transport := Interrupting.simulates.transport
  send := Channel.send_along Interrupting.simulates.transport
  receive := Channel.receive_along Interrupting.simulates.transport
  exchange := Channel.exchange_along Interrupting.simulates.transport
  fill_ne n t e := kind_ne_of_fill
  receive_ne c e h := by
    obtain ⟨n, t, hfill⟩ := exists_fill_of_receive h
    exact kind_ne_of_fill hfill
  of_writeAll bufs t e h hkind := by
    have hwrite : writeFrom 0 (Buffers.advance 0 bufs) t.stream =
        ((Transport.writeAll bufs t).1, (Transport.writeAll bufs t).2.stream) :=
      writeFrom_of_writeAll rfl
    rw [h] at hwrite
    exact exists_flush_of_writeFrom hwrite hkind
  of_flush bufs s s' n h := by
    obtain ⟨s₁, hflush, hwrite⟩ := FlushInterrupting.writeFrom_of_ok (writeFrom_of_writeAll h)
    refine ⟨s₁, hflush, ?_⟩
    rw [StreamTransport.writeAll_eq, writeAll, hwrite]

/-- A frame that a stream has taken whole is reported as one that could not be sent, because the
flush behind it was interrupted; with another flush in its place, all is well. -/
theorem send_fails_interrupted_flush :
    let memory := MemoryStream.ofBytes ByteArray.empty
    let interrupted : Channel (StreamTransport (FlushInterrupting MemoryStream)) :=
      { transport := ⟨⟨memory, true⟩⟩ }
    let calm : Channel (StreamTransport MemoryStream) := { transport := ⟨memory⟩ }
    let payload : ByteArray := ⟨#[97, 98, 99]⟩
    (calm.send payload).result = .ok 7 ∧
    (calm.send payload).channel.transport.stream.bytes = ⟨#[0, 0, 0, 3, 97, 98, 99]⟩ ∧
    (interrupted.send payload).result = .error (.io FlushInterrupting.interruption) ∧
    (interrupted.send payload).channel.transport.stream.stream.bytes =
      ⟨#[0, 0, 0, 3, 97, 98, 99]⟩ := by
  intro memory interrupted calm payload
  refine ⟨by cbv, by cbv, by cbv, by cbv⟩

end ClassRelay
