import ClassRelay.Proofs.Stream.Delivery

/-!
# Replays

What a party did with its stream is a list of `Move`s: the bytes that each read gave it, the
bytes that each write took from it, and its flushes. A `Replay` of a list of moves is a stream
that answers with these, one by one, as long as they fit what it is asked, and then has no answer
more. So the code of the party, run over the replay of what it did, stops where it is now, and
what it is refused there tells what it waits for: bytes to read, or room to write.
-/

namespace ClassRelay

/-- What a stream did for one call. Reads and writes may be of any part of what was asked. -/
inductive Move
  | read (bytes : ByteArray)
  | write (bytes : ByteArray)
  | flush
  deriving DecidableEq

namespace Move

/-- The bytes that a move brought in. -/
def received : Move → ByteArray
  | read bytes => bytes
  | write _ | flush => ByteArray.empty

/-- The bytes that a move sent out. -/
def sent : Move → ByteArray
  | write bytes => bytes
  | read _ | flush => ByteArray.empty

/-- The bytes that moves brought in. -/
def receivedAll (moves : List Move) : ByteArray :=
  Buffers.join (moves.map received)

/-- The bytes that moves sent out. -/
def sentAll (moves : List Move) : ByteArray :=
  Buffers.join (moves.map sent)

@[simp] theorem receivedAll_append (ms ms' : List Move) :
    receivedAll (ms ++ ms') = receivedAll ms ++ receivedAll ms' := by
  rw [receivedAll, List.map_append, Buffers.join_append]
  rfl

@[simp] theorem sentAll_append (ms ms' : List Move) :
    sentAll (ms ++ ms') = sentAll ms ++ sentAll ms' := by
  rw [sentAll, List.map_append, Buffers.join_append]
  rfl

@[simp] theorem receivedAll_singleton (m : Move) : receivedAll [m] = m.received :=
  ByteArray.append_empty

@[simp] theorem sentAll_singleton (m : Move) : sentAll [m] = m.sent :=
  ByteArray.append_empty

end Move

/-- The moves that were made again, oldest first, and those that are still ahead. -/
structure Replay where
  done : List Move
  ahead : List Move
  deriving DecidableEq

namespace Replay

/-- There are no bytes to read. -/
def awaitingBytes : IoError := ⟨.wouldBlock, "no bytes to read"⟩

/-- There is no room to write. -/
def awaitingRoom : IoError := ⟨.wouldBlock, "no room to write"⟩

/-- The replay of moves, at its start. -/
def ofMoves (moves : List Move) : Replay := ⟨[], moves⟩

/-- The replay with one more move made again. -/
def after (s : Replay) (m : Move) (ahead : List Move) : Replay := ⟨s.done ++ [m], ahead⟩

/-- Makes the next move again if it reads some bytes, and at most `n`. -/
def read (n : Nat) (s : Replay) : Except IoError (Chunk n) × Replay :=
  match s.ahead with
  | .read bytes :: ahead =>
    if h : 0 < bytes.size ∧ bytes.size ≤ n then (.ok ⟨bytes, h.2⟩, s.after (.read bytes) ahead)
    else (.error awaitingBytes, s)
  | _ => (.error awaitingBytes, s)

/-- Makes the next move again if it writes some bytes, from the front of the buffers. -/
def write (bufs : List ByteArray) (s : Replay) :
    Except IoError (Fin (Buffers.size bufs + 1)) × Replay :=
  match s.ahead with
  | .write bytes :: ahead =>
    if h : 0 < bytes.size ∧ bytes.size < Buffers.size bufs + 1 ∧
        (Buffers.join bufs).extract 0 bytes.size = bytes then
      (.ok ⟨bytes.size, h.2.1⟩, s.after (.write bytes) ahead)
    else (.error awaitingRoom, s)
  | _ => (.error awaitingRoom, s)

/-- Makes the next move again if it is a flush. -/
def flush (s : Replay) : Except IoError Unit × Replay :=
  match s.ahead with
  | .flush :: ahead => (.ok (), s.after .flush ahead)
  | _ => (.error awaitingRoom, s)

/-! ### What a call can do -/

section Calls

variable {s s' : Replay} {n : Nat} {bufs : List ByteArray}

theorem read_cases {answer : Except IoError (Chunk n)} (h : s.read n = (answer, s')) :
    (∃ bytes ahead, s.ahead = .read bytes :: ahead ∧ s' = s.after (.read bytes) ahead ∧
      0 < bytes.size ∧ ∃ hle, answer = .ok ⟨bytes, hle⟩) ∨
    (answer = .error awaitingBytes ∧ s' = s) := by
  unfold read at h
  split at h
  next bytes ahead hahead =>
    split at h
    next hfit =>
      cases h
      exact .inl ⟨bytes, ahead, hahead, rfl, hfit.1, hfit.2, rfl⟩
    next =>
      cases h
      exact .inr ⟨rfl, rfl⟩
  next =>
    cases h
    exact .inr ⟨rfl, rfl⟩

theorem write_cases {answer : Except IoError (Fin (Buffers.size bufs + 1))}
    (h : s.write bufs = (answer, s')) :
    (∃ bytes ahead, s.ahead = .write bytes :: ahead ∧ s' = s.after (.write bytes) ahead ∧
      0 < bytes.size ∧ (Buffers.join bufs).extract 0 bytes.size = bytes ∧
      ∃ hlt, answer = .ok ⟨bytes.size, hlt⟩) ∨
    (answer = .error awaitingRoom ∧ s' = s) := by
  unfold write at h
  split at h
  next bytes ahead hahead =>
    split at h
    next hfit =>
      cases h
      exact .inl ⟨bytes, ahead, hahead, rfl, hfit.1, hfit.2.2, hfit.2.1, rfl⟩
    next =>
      cases h
      exact .inr ⟨rfl, rfl⟩
  next =>
    cases h
    exact .inr ⟨rfl, rfl⟩

theorem flush_cases {answer : Except IoError Unit} (h : s.flush = (answer, s')) :
    (∃ ahead, s.ahead = .flush :: ahead ∧ s' = s.after .flush ahead ∧ answer = .ok ()) ∨
    (answer = .error awaitingRoom ∧ s' = s) := by
  unfold flush at h
  split at h
  next ahead hahead =>
    cases h
    exact .inl ⟨ahead, hahead, rfl, rfl⟩
  next =>
    cases h
    exact .inr ⟨rfl, rfl⟩

end Calls

instance : ByteStream Replay where
  read := read
  write := write
  flush := flush
  interrupts _ := 0
  interrupts_read := by
    intro n s s' e h hkind
    obtain ⟨_, _, -, -, -, _, ⟨⟩⟩ | ⟨⟨⟩, -⟩ := read_cases h
    cases hkind
  interrupts_write := by
    intro bufs s s' e h hkind
    obtain ⟨_, _, -, -, -, -, _, ⟨⟩⟩ | ⟨⟨⟩, -⟩ := write_cases h
    cases hkind

/-! ### The bytes of a replay -/

/-- All moves, those that were made again and those that are ahead. -/
def moves (s : Replay) : List Move := s.done ++ s.ahead

/-- The bytes that are still to be read. -/
def pending (s : Replay) : ByteArray := Move.receivedAll s.ahead

/-- The bytes that were written. -/
def written (s : Replay) : ByteArray := Move.sentAll s.done

section Moving

variable {s : Replay} {m : Move} {ahead : List Move}

theorem moves_after (h : s.ahead = m :: ahead) : (s.after m ahead).moves = s.moves := by
  rw [moves, moves, after, h, List.append_assoc, List.singleton_append]

theorem pending_after (h : s.ahead = m :: ahead) :
    s.pending = m.received ++ (s.after m ahead).pending := by
  rw [pending, h]
  rfl

theorem written_after : (s.after m ahead).written = s.written ++ m.sent := by
  rw [written, after, Move.sentAll_append, Move.sentAll_singleton, written]

theorem pending_of_ahead (h : s.ahead = []) : s.pending = ByteArray.empty := by
  rw [pending, h]
  rfl

theorem written_of_ahead (h : s.ahead = []) : s.written = Move.sentAll s.moves := by
  rw [written, moves, h, List.append_nil]

/-- When all moves were made again, all their bytes were taken and sent. -/
theorem eq_of_ahead {moves : List Move} {taken sent : ByteArray} (h : s.ahead = [])
    (hmoves : s.moves = moves) (hpending : (ofMoves moves).pending = taken ++ s.pending)
    (hwritten : s.written = (ofMoves moves).written ++ sent) :
    taken = Move.receivedAll moves ∧ sent = Move.sentAll moves := by
  rw [pending_of_ahead h, ByteArray.append_empty] at hpending
  rw [written_of_ahead h, hmoves] at hwritten
  exact ⟨hpending.symm, (hwritten.trans ByteArray.empty_append).symm⟩

end Moving

theorem delivers : ByteStream.Delivers (· = awaitingBytes) pending where
  of_ok := by
    intro n chunk s s' h
    obtain ⟨bytes, ahead, hahead, rfl, -, hle, ⟨⟩⟩ | ⟨⟨⟩, -⟩ := read_cases h
    exact pending_after hahead
  of_empty := by
    intro n chunk s s' h hn hempty
    obtain ⟨bytes, ahead, hahead, rfl, hpos, hle, ⟨⟩⟩ | ⟨⟨⟩, -⟩ := read_cases h
    exact absurd hempty (Nat.ne_of_gt hpos)
  of_error := by
    intro n e s s' h
    obtain ⟨_, _, -, -, -, _, ⟨⟩⟩ | ⟨⟨⟩, rfl⟩ := read_cases h
    exact ⟨rfl, fun _ => rfl⟩

theorem accepts : ByteStream.Accepts (· = awaitingRoom) written where
  of_ok := by
    intro bufs taken s s' h
    obtain ⟨bytes, ahead, hahead, rfl, -, hbytes, hlt, ⟨⟩⟩ | ⟨⟨⟩, -⟩ := write_cases h
    rw [written_after, hbytes]
    rfl
  of_none := by
    intro bufs taken s s' h hsize hzero
    obtain ⟨bytes, ahead, hahead, rfl, hpos, hbytes, hlt, ⟨⟩⟩ | ⟨⟨⟩, -⟩ := write_cases h
    exact absurd hzero (Nat.ne_of_gt hpos)
  of_error := by
    intro bufs e s s' h
    obtain ⟨_, _, -, -, -, -, _, ⟨⟩⟩ | ⟨⟨⟩, rfl⟩ := write_cases h
    exact ⟨rfl, fun _ => rfl⟩
  of_flush := by
    intro answer s s' h
    obtain ⟨ahead, hahead, rfl, rfl⟩ | ⟨rfl, rfl⟩ := flush_cases h
    · refine ⟨?_, by rintro _ ⟨⟩⟩
      rw [written_after]
      exact ByteArray.append_empty
    · refine ⟨rfl, ?_⟩
      rintro _ ⟨⟩
      rfl

/-! ### The transport over a replay -/

section Transports

variable {t t' : StreamTransport Replay}

/-- What moves that send nothing leave alone, a fill leaves alone. -/
theorem fill_keeps {α : Type} {f : Replay → α}
    (h : ∀ {s m ahead}, s.ahead = m :: ahead → m.sent = ByteArray.empty →
      f (s.after m ahead) = f s)
    {n : Nat} {answer : Except IoError (Nat × Chunk n)}
    (hfill : Transport.fill n t = (answer, t')) : f t'.stream = f t.stream := by
  obtain ⟨answer', hfrom, -⟩ := ByteStream.exists_fillFrom_of_fill hfill
  refine ByteStream.fillFrom_keeps ?_ hfrom
  intro n answer s s' hread
  obtain ⟨_, _, hahead, rfl, -⟩ | ⟨-, rfl⟩ := read_cases hread
  · exact h hahead rfl
  · rfl

/-- What moves that bring nothing in leave alone, a write leaves alone. -/
theorem writeAll_keeps {α : Type} {f : Replay → α}
    (h : ∀ {s m ahead}, s.ahead = m :: ahead → m.received = ByteArray.empty →
      f (s.after m ahead) = f s)
    {bufs : List ByteArray} {answer : Except IoError Nat}
    (hwrite : Transport.writeAll bufs t = (answer, t')) : f t'.stream = f t.stream := by
  refine ByteStream.writeFrom_keeps ?_ ?_ (ByteStream.writeFrom_of_writeAll hwrite)
  · intro bufs answer s s' hwrite
    obtain ⟨_, _, hahead, rfl, -⟩ | ⟨-, rfl⟩ := write_cases hwrite
    · exact h hahead rfl
    · rfl
  · intro answer s s' hflush
    obtain ⟨_, hahead, rfl, -⟩ | ⟨-, rfl⟩ := flush_cases hflush
    · exact h hahead rfl
    · rfl

theorem moves_of_fill {n : Nat} {answer : Except IoError (Nat × Chunk n)}
    (h : Transport.fill n t = (answer, t')) : t'.stream.moves = t.stream.moves :=
  fill_keeps (fun hahead _ => moves_after hahead) h

theorem moves_of_writeAll {bufs : List ByteArray} {answer : Except IoError Nat}
    (h : Transport.writeAll bufs t = (answer, t')) : t'.stream.moves = t.stream.moves :=
  writeAll_keeps (fun hahead _ => moves_after hahead) h

/-- A replay keeps bytes in order both ways. All that can go wrong is that it has no answer. -/
theorem duplex : Duplex (· = awaitingBytes) (· = awaitingRoom)
    (fun t : StreamTransport Replay => t.stream.pending) fun t => t.stream.written where
  delivers := delivers.transport
  accepts := accepts.transport
  written_fill := by
    intro n answer t t' h
    refine fill_keeps (f := written) ?_ h
    intro s m ahead hahead hsent
    rw [written_after, hsent, ByteArray.append_empty]
  pending_writeAll := by
    intro bufs answer t t' h
    refine writeAll_keeps (f := pending) ?_ h
    intro s m ahead hahead hreceived
    rw [pending_after hahead, hreceived, ByteArray.empty_append]

end Transports

end Replay

end ClassRelay
