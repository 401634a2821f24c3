import ClassRelay.Proofs.Stream.Delivery
import ClassRelay.Proofs.Stream.Simulation

/-!
# The contract with a stream that is written to

A stream may take any number of the bytes that it is offered, none of them, or fail. What the
transport over it does then is a function of the answers that it gets: which calls it makes, and
which result it gives (`StreamTransport.writeAll_keeps_contract`).

The writes of one request are a **conversation** with the stream. `Writes` lists the
conversations about the buffers that are left; they are followed by an induction that keeps one
invariant, `Writes.rest`: what the stream has taken and what it is offered next make up the
request.

The writing **ends**: no conversation has more calls than the request has bytes, one more for each
interruption, and the flush (`Writes.length_le`). Nothing is assumed of a stream but that its
interruptions run out, which is part of being a `ByteStream`.

The calls are seen by watching the stream, as those of a channel are seen by watching its
transport.
-/

namespace ClassRelay

/-! ### Calls -/

/-- A call of a stream, with the answer to it. -/
inductive StreamCall
  | read (n : Nat) (answer : Except IoError (Chunk n))
  | write (offered : List ByteArray) (answer : Except IoError (Fin (Buffers.size offered + 1)))
  | flush (answer : Except IoError Unit)

namespace StreamCall

/-- The bytes that the stream took. -/
def taken : StreamCall → ByteArray
  | write offered (.ok n) => (Buffers.join offered).extract 0 n.val
  | _ => ByteArray.empty

/-- The call was a write, and it was interrupted. -/
def isInterruption : StreamCall → Bool
  | write _ (.error e) => e.kind = .interrupted
  | _ => false

/-- All bytes that the stream took, in order. -/
def accepted (calls : List StreamCall) : ByteArray :=
  Buffers.join (calls.map taken)

/-- How many writes were interrupted. -/
def interruptions (calls : List StreamCall) : Nat :=
  calls.countP isInterruption

section Accepted

variable {calls : List StreamCall} {offered : List ByteArray}

theorem accepted_append (calls calls' : List StreamCall) :
    accepted (calls ++ calls') = accepted calls ++ accepted calls' := by
  rw [accepted, List.map_append, Buffers.join_append]
  rfl

theorem accepted_write_error {e : IoError} :
    accepted (.write offered (.error e) :: calls) = accepted calls :=
  ByteArray.empty_append

theorem accepted_write_ok {n : Fin (Buffers.size offered + 1)} :
    accepted (.write offered (.ok n) :: calls) =
      (Buffers.join offered).extract 0 n.val ++ accepted calls :=
  rfl

theorem accepted_write_zero {n : Fin (Buffers.size offered + 1)} (h : n.val = 0) :
    accepted (.write offered (.ok n) :: calls) = accepted calls := by
  rw [accepted_write_ok, h, ByteArray.extract_same, ByteArray.empty_append]

/-- What a write took, and what is left behind it, are the bytes that it was offered. -/
theorem join_eq_of_took (n : Fin (Buffers.size offered + 1)) :
    ((Buffers.join offered).extract 0 n.val).size = n.val ∧ Buffers.join offered =
      (Buffers.join offered).extract 0 n.val ++ Buffers.join (Buffers.advance n.val offered) := by
  have hle : n.val ≤ Buffers.size offered := Nat.le_of_lt_succ n.isLt
  refine ⟨size_extract_zero ?_, Buffers.join_eq_append_join_advance hle⟩
  rw [Buffers.size_join]
  exact hle

end Accepted

end StreamCall

open StreamCall

/-! ### Conversations -/

/-- The ways in which the buffers that are `left` are written behind `written` bytes. -/
inductive Writes : (written : Nat) → (left : List ByteArray) → List StreamCall →
    Except IoError Nat → Prop
  /-- Nothing is left, and the stream is flushed. -/
  | flushed {written : Nat} : Writes written [] [.flush (.ok ())] (.ok written)
  | flushFailed {written : Nat} {e : IoError} : Writes written [] [.flush (.error e)] (.error e)
  /-- An interrupted write is made again. -/
  | interrupted {written : Nat} {left : List ByteArray} {calls : List StreamCall}
    {result : Except IoError Nat} {e : IoError} (hpos : 0 < Buffers.size left)
    (hkind : e.kind = .interrupted) (h : Writes written left calls result) :
    Writes written left (.write left (.error e) :: calls) result
  | failed {written : Nat} {left : List ByteArray} {e : IoError} (hpos : 0 < Buffers.size left)
    (hkind : e.kind ≠ .interrupted) : Writes written left [.write left (.error e)] (.error e)
  | tookNothing {written : Nat} {left : List ByteArray} {n : Fin (Buffers.size left + 1)}
    (hpos : 0 < Buffers.size left) (hzero : n.val = 0) :
    Writes written left [.write left (.ok n)] (.error ByteStream.tookNothing)
  /-- What the stream did not take is written next. -/
  | took {written : Nat} {left : List ByteArray} {calls : List StreamCall}
    {result : Except IoError Nat} {n : Fin (Buffers.size left + 1)} (hne : n.val ≠ 0)
    (h : Writes (written + n.val) (Buffers.advance n.val left) calls result) :
    Writes written left (.write left (.ok n) :: calls) result

namespace Writes

variable {written : Nat} {left : List ByteArray} {calls : List StreamCall}
  {result : Except IoError Nat}

theorem ne_nil (h : Writes written left calls result) : calls ≠ [] := by
  cases h
  all_goals exact List.cons_ne_nil _ _

/-- **The invariant.** Behind some of its calls, a conversation is one about what is left then:
with what the stream has taken before, it makes up the request. -/
theorem rest {earlier later : List StreamCall} (h : Writes written left (earlier ++ later) result)
    (hlater : later ≠ []) : ∃ left', Buffers.join left = accepted earlier ++ Buffers.join left' ∧
      Writes (written + (accepted earlier).size) left' later result := by
  induction earlier generalizing written left with
  | nil => exact ⟨left, ByteArray.empty_append.symm, h⟩
  | cons call earlier ih =>
    have hne : earlier ++ later ≠ [] := List.append_ne_nil_of_right_ne_nil earlier hlater
    rw [List.cons_append] at h
    generalize hcalls : earlier ++ later = calls at h
    cases h with
    | flushed | flushFailed | failed | tookNothing => exact absurd hcalls hne
    | interrupted hpos hkind h =>
      subst hcalls
      rw [accepted_write_error]
      exact ih h
    | @took _ _ _ _ n hnz h =>
      subst hcalls
      obtain ⟨hsize, hjoin⟩ := join_eq_of_took n
      obtain ⟨left', hrest, hwrites⟩ := ih h
      refine ⟨left', ?_, ?_⟩
      · rw [accepted_write_ok, ByteArray.append_assoc, ← hrest]
        exact hjoin
      · rw [accepted_write_ok, ByteArray.size_append, hsize, ← Nat.add_assoc]
        exact hwrites

/-- The stream takes the request from its front. -/
theorem exists_rest (h : Writes written left calls result) :
    ∃ b, Buffers.join left = accepted calls ++ b := by
  induction h with
  | flushed | flushFailed => exact ⟨ByteArray.empty, rfl⟩
  | failed => exact ⟨_, ByteArray.empty_append.symm⟩
  | tookNothing hpos hzero =>
    rw [accepted_write_zero hzero]
    exact ⟨_, ByteArray.empty_append.symm⟩
  | interrupted hpos hkind h ih =>
    rw [accepted_write_error]
    exact ih
  | @took _ _ _ _ n hne h ih =>
    obtain ⟨b, hb⟩ := ih
    refine ⟨b, ?_⟩
    rw [accepted_write_ok, ByteArray.append_assoc, ← hb]
    exact (join_eq_of_took n).2

/-- A conversation has a call for each byte at most, one for each interruption, and the flush. -/
theorem length_le (h : Writes written left calls result) :
    calls.length ≤ Buffers.size left + interruptions calls + 1 := by
  induction h with
  | flushed | flushFailed | failed | tookNothing => exact Nat.le_add_left 1 _
  | @interrupted _ left calls _ e hpos hkind h ih =>
    have hcount : interruptions (.write left (.error e) :: calls) = interruptions calls + 1 :=
      List.countP_cons_of_pos (decide_eq_true hkind)
    rw [List.length_cons, hcount]
    omega
  | @took _ left calls _ n hne h ih =>
    have hcount : interruptions (.write left (.ok n) :: calls) = interruptions calls :=
      List.countP_cons_of_neg Bool.false_ne_true
    have hle := n.isLt
    rw [Buffers.size_advance] at ih
    rw [List.length_cons, hcount]
    omega

end Writes

/-! ### The last call -/

/-- How the writing of buffers can end, where `total` is what it then tells if all went well. -/
inductive Ends (total : Nat) (left : List ByteArray) (calls : List StreamCall)
    (result : Except IoError Nat) : Prop
  /-- All is taken, and the stream was flushed. -/
  | flush {answer : Except IoError Unit} (hlast : calls.getLast? = some (.flush answer))
    (hall : accepted calls = Buffers.join left) (hresult : result = answer.map fun _ => total)
  /-- Not all is taken, and the last write failed. -/
  | write {offered : List ByteArray} {e : IoError}
    (hlast : calls.getLast? = some (.write offered (.error e))) (hkind : e.kind ≠ .interrupted)
    (hsome : accepted calls ≠ Buffers.join left) (hresult : result = .error e)
  /-- Not all is taken, and the last write took nothing. -/
  | stall {offered : List ByteArray} {n : Fin (Buffers.size offered + 1)}
    (hlast : calls.getLast? = some (.write offered (.ok n))) (hzero : n.val = 0)
    (hsome : accepted calls ≠ Buffers.join left)
    (hresult : result = .error ByteStream.tookNothing)

namespace Ends

variable {total : Nat} {left left' : List ByteArray} {calls : List StreamCall}
  {result : Except IoError Nat}

/-- An ending is one of more calls, too, if the bytes that they took are asked for as well. -/
theorem cons {call : StreamCall} (h : Ends total left' calls result) (hne : calls ≠ [])
    (hiff : accepted (call :: calls) = Buffers.join left ↔ accepted calls = Buffers.join left') :
    Ends total left (call :: calls) result := by
  have hlast : (call :: calls).getLast? = calls.getLast? := List.getLast?_cons_of_ne_nil hne
  cases h with
  | flush h hall hresult => exact .flush (hlast.trans h) (hiff.mpr hall) hresult
  | write h hkind hsome hresult => exact .write (hlast.trans h) hkind (mt hiff.mp hsome) hresult
  | stall h hzero hsome hresult => exact .stall (hlast.trans h) hzero (mt hiff.mp hsome) hresult

theorem exists_flush (h : Ends total left calls result)
    (hall : accepted calls = Buffers.join left) :
    ∃ answer, calls.getLast? = some (.flush answer) := by
  cases h with
  | flush hlast => exact ⟨_, hlast⟩
  | write _ _ hsome | stall _ _ hsome => exact absurd hall hsome

theorem ok_iff (h : Ends total left calls result) (n : Nat) : result = .ok n ↔
    n = total ∧ accepted calls = Buffers.join left ∧ calls.getLast? = some (.flush (.ok ())) := by
  cases h with
  | @flush answer hlast hall hresult =>
    rw [hresult, hlast]
    cases answer <;> simp [hall, Except.map, eq_comm]
  | write hlast _ _ hresult | stall hlast _ _ hresult => simp [hresult, hlast]

theorem error_iff (h : Ends total left calls result) (e : IoError) : result = .error e ↔
    calls.getLast? = some (.flush (.error e)) ∨
    (e.kind ≠ .interrupted ∧ ∃ offered, calls.getLast? = some (.write offered (.error e))) ∨
    (e = ByteStream.tookNothing ∧ ∃ (offered : List ByteArray)
      (n : Fin (Buffers.size offered + 1)), n.val = 0 ∧
        calls.getLast? = some (.write offered (.ok n))) := by
  cases h with
  | @flush answer hlast hall hresult =>
    rw [hresult, hlast]
    cases answer <;> simp [Except.map]
  | @write offered e' hlast hkind _ hresult =>
    rw [hresult, hlast]
    constructor
    · rintro ⟨⟩
      exact .inr (.inl ⟨hkind, offered, rfl⟩)
    · rintro (h | ⟨-, _, h⟩ | ⟨-, _, _, -, h⟩) <;> cases h
      rfl
  | @stall offered n hlast hzero _ hresult =>
    rw [hresult, hlast]
    constructor
    · rintro ⟨⟩
      exact .inr (.inr ⟨rfl, offered, n, hzero, rfl⟩)
    · rintro (h | ⟨-, _, h⟩ | ⟨rfl, _, _, -, h⟩)
      · cases h
      · cases h
      · rfl

end Ends

namespace Writes

variable {written : Nat} {left : List ByteArray} {calls : List StreamCall}
  {result : Except IoError Nat}

/-- **The last call decides.** -/
theorem ends (h : Writes written left calls result) :
    Ends (written + Buffers.size left) left calls result := by
  have hempty {bufs : List ByteArray} (hpos : 0 < Buffers.size bufs) :
      ByteArray.empty ≠ Buffers.join bufs := by
    intro heq
    rw [← Buffers.size_join, ← heq] at hpos
    exact absurd hpos (Nat.lt_irrefl 0)
  induction h with
  | flushed | flushFailed => exact .flush rfl rfl rfl
  | failed hpos hkind => exact .write rfl hkind (hempty hpos) rfl
  | tookNothing hpos hzero =>
    refine .stall rfl hzero ?_ rfl
    rw [accepted_write_zero hzero]
    exact hempty hpos
  | interrupted hpos hkind h ih =>
    refine ih.cons h.ne_nil ?_
    rw [accepted_write_error]
  | @took written left calls _ n hne h ih =>
    have htotal : written + n.val + Buffers.size (Buffers.advance n.val left) =
        written + Buffers.size left := by
      have hle := n.isLt
      rw [Buffers.size_advance]
      omega
    rw [htotal] at ih
    refine ih.cons h.ne_nil ?_
    have hjoin := (join_eq_of_took n).2
    rw [accepted_write_ok]
    constructor
    · intro heq
      exact (ByteArray.append_right_inj _).mp (heq.trans hjoin)
    · intro heq
      rw [heq]
      exact hjoin.symm

end Writes

/-! ### The contract -/

/-- What the writing of buffers owes to its caller and to the stream, given the calls that it
made and their answers. -/
structure WriteContract (bufs : List ByteArray) (calls : List StreamCall)
    (result : Except IoError Nat) : Prop where
  /-- At every moment, what the stream has taken is a prefix of the request. -/
  accepted_prefix : ∀ earlier later, calls = earlier ++ later →
    ∃ b, Buffers.join bufs = accepted earlier ++ b
  /-- Every write offers all that was not taken yet, and at least one byte. -/
  offered_rest : ∀ earlier offered answer later, calls = earlier ++ .write offered answer :: later →
    Buffers.join bufs = accepted earlier ++ Buffers.join offered ∧ 0 < Buffers.size offered
  /-- A write that takes nothing is the last call. -/
  of_nothing : ∀ earlier offered n later, calls = earlier ++ .write offered (.ok n) :: later →
    n.val = 0 → later = [] ∧ result = .error ByteStream.tookNothing
  /-- So is one that fails; its error is passed on. -/
  of_error : ∀ earlier offered e later, calls = earlier ++ .write offered (.error e) :: later →
    e.kind ≠ .interrupted → later = [] ∧ result = .error e
  /-- One that is interrupted is made again. -/
  of_interrupted : ∀ earlier offered e later,
    calls = earlier ++ .write offered (.error e) :: later → e.kind = .interrupted →
      ∃ answer later', later = .write offered answer :: later'
  /-- The stream is flushed only when all was taken, and nothing follows; an error of that is
  passed on. -/
  of_flush : ∀ earlier answer later, calls = earlier ++ .flush answer :: later →
    later = [] ∧ accepted earlier = Buffers.join bufs ∧ ∀ e, answer = .error e → result = .error e
  /-- When all was taken, it is flushed. -/
  flush_of_all : accepted calls = Buffers.join bufs →
    ∃ answer, calls.getLast? = some (.flush answer)
  /-- Of a request without bytes nothing is written. -/
  of_empty : Buffers.size bufs = 0 → ∃ answer, calls = [.flush answer]
  /-- All is well just when all was taken and flushed; then the size of the request is told. -/
  ok_iff : ∀ n, result = .ok n ↔ n = Buffers.size bufs ∧ accepted calls = Buffers.join bufs ∧
    calls.getLast? = some (.flush (.ok ()))
  /-- The errors are those of the last call. -/
  error_iff : ∀ e, result = .error e ↔ calls.getLast? = some (.flush (.error e)) ∨
    (e.kind ≠ .interrupted ∧ ∃ offered, calls.getLast? = some (.write offered (.error e))) ∨
    (e = ByteStream.tookNothing ∧ ∃ (offered : List ByteArray)
      (n : Fin (Buffers.size offered + 1)), n.val = 0 ∧
        calls.getLast? = some (.write offered (.ok n)))
  /-- Nothing is read. -/
  no_read : ∀ n answer, .read n answer ∉ calls
  /-- There is a call for each byte at most, one for each interruption, and the flush. -/
  length_le : calls.length ≤ Buffers.size bufs + interruptions calls + 1

namespace Writes

variable {bufs left : List ByteArray} {calls : List StreamCall} {result : Except IoError Nat}

theorem exists_write {written : Nat} (h : Writes written left calls result)
    (hpos : 0 < Buffers.size left) :
    ∃ answer later, calls = .write left answer :: later := by
  cases h with
  | flushed | flushFailed => cases hpos
  | interrupted | failed | tookNothing | took => exact ⟨_, _, rfl⟩

/-- What is offered is what is left, and that is not nothing. -/
theorem offers {written : Nat} {offered : List ByteArray}
    {answer : Except IoError (Fin (Buffers.size offered + 1))}
    (h : Writes written left (.write offered answer :: calls) result) :
    offered = left ∧ 0 < Buffers.size offered := by
  cases h with
  | interrupted hpos | failed hpos | tookNothing hpos => exact ⟨rfl, hpos⟩
  | @took _ _ _ _ n hne =>
    have hlt := n.isLt
    exact ⟨rfl, by omega⟩

/-- The stream is flushed when nothing is left, and that is all. -/
theorem flushes {written : Nat} {answer : Except IoError Unit}
    (h : Writes written left (.flush answer :: calls) result) :
    left = [] ∧ calls = [] ∧ ∀ e, answer = .error e → result = .error e := by
  cases h with
  | flushed => exact ⟨rfl, rfl, fun _ he => by cases he⟩
  | flushFailed =>
    refine ⟨rfl, rfl, ?_⟩
    rintro _ ⟨⟩
    rfl

/-- Of nothing, only the stream is flushed. -/
theorem exists_flush_of_size_eq_zero {written : Nat} (h : Writes written left calls result)
    (hzero : Buffers.size left = 0) : ∃ answer, calls = [.flush answer] := by
  cases h with
  | flushed | flushFailed => exact ⟨_, rfl⟩
  | interrupted hpos | failed hpos | tookNothing hpos => exact absurd hzero (Nat.ne_of_gt hpos)
  | @took _ _ _ _ n hne =>
    have hlt := n.isLt
    omega

/-- A conversation about what is left of a request when nothing was taken keeps the contract. -/
theorem contract (h : Writes 0 left calls result) (hjoin : Buffers.join left = Buffers.join bufs) :
    WriteContract bufs calls result := by
  have hsize : Buffers.size left = Buffers.size bufs := by
    rw [← Buffers.size_join, hjoin, Buffers.size_join]
  have hends := h.ends
  rw [Nat.zero_add, hsize] at hends
  -- What is said of a call in the middle is read off the conversation that starts with it.
  have hrest {earlier later call} (heq : calls = earlier ++ call :: later) : ∃ left',
      Buffers.join bufs = accepted earlier ++ Buffers.join left' ∧
        Writes (0 + (accepted earlier).size) left' (call :: later) result := by
    subst heq
    rw [← hjoin]
    exact h.rest (List.cons_ne_nil _ _)
  refine {
    accepted_prefix := ?_
    offered_rest := ?_
    of_nothing := ?_
    of_error := ?_
    of_interrupted := ?_
    of_flush := ?_
    flush_of_all := fun hall => hends.exists_flush (hall.trans hjoin.symm)
    of_empty := fun hzero => h.exists_flush_of_size_eq_zero (hsize.trans hzero)
    ok_iff := fun n => hjoin ▸ hends.ok_iff n
    error_iff := hends.error_iff
    no_read := ?_
    length_le := hsize ▸ h.length_le }
  · rintro earlier later rfl
    obtain ⟨b, hb⟩ := h.exists_rest
    rw [accepted_append, ByteArray.append_assoc, hjoin] at hb
    exact ⟨_, hb⟩
  · intro earlier offered answer later heq
    obtain ⟨left', hjoin', hwrites⟩ := hrest heq
    obtain ⟨rfl, hpos⟩ := hwrites.offers
    exact ⟨hjoin', hpos⟩
  · intro earlier offered n later heq hzero
    obtain ⟨left', -, hwrites⟩ := hrest heq
    cases hwrites with
    | tookNothing => exact ⟨rfl, rfl⟩
    | took hne => exact absurd hzero hne
  · intro earlier offered e later heq hkind
    obtain ⟨left', -, hwrites⟩ := hrest heq
    cases hwrites with
    | failed => exact ⟨rfl, rfl⟩
    | interrupted _ hkind' => exact absurd hkind' hkind
  · intro earlier offered e later heq hkind
    obtain ⟨left', -, hwrites⟩ := hrest heq
    cases hwrites with
    | failed _ hkind' => exact absurd hkind hkind'
    | interrupted hpos _ hwrites => exact hwrites.exists_write hpos
  · intro earlier answer later heq
    obtain ⟨left', hjoin', hwrites⟩ := hrest heq
    obtain ⟨rfl, hlater, herror⟩ := hwrites.flushes
    rw [Buffers.join, ByteArray.append_empty] at hjoin'
    exact ⟨hlater, hjoin'.symm, herror⟩
  · intro n answer hmem
    obtain ⟨earlier, later, heq⟩ := List.append_of_mem hmem
    obtain ⟨left', -, hwrites⟩ := hrest heq
    cases hwrites

end Writes

/-! ### Watching a stream -/

/-- A stream, and the calls that it got, oldest first. -/
structure WatchedStream (σ : Type) where
  stream : σ
  calls : List StreamCall

namespace WatchedStream

variable {σ : Type} [ByteStream σ]

/-- Watching passes every call on, and its answer back. -/
instance : ByteStream (WatchedStream σ) where
  read n s :=
    let (answer, stream) := ByteStream.read n s.stream
    (answer, ⟨stream, s.calls ++ [.read n answer]⟩)
  write bufs s :=
    let (answer, stream) := ByteStream.write bufs s.stream
    (answer, ⟨stream, s.calls ++ [.write bufs answer]⟩)
  flush s :=
    let (answer, stream) := ByteStream.flush s.stream
    (answer, ⟨stream, s.calls ++ [.flush answer]⟩)
  interrupts s := ByteStream.interrupts s.stream
  interrupts_read := by
    rintro n s s' e h hkind
    obtain ⟨h1, rfl⟩ := Prod.mk.inj h
    exact ByteStream.interrupts_read (Prod.ext h1 rfl) hkind
  interrupts_write := by
    rintro bufs s s' e h hkind
    obtain ⟨h1, rfl⟩ := Prod.mk.inj h
    exact ByteStream.interrupts_write (Prod.ext h1 rfl) hkind

/-- A stream that is watched does what it does when it is not. -/
theorem simulates : ByteStream.Simulates (stream : WatchedStream σ → σ) where
  of_read := by
    rintro n answer t t' ⟨⟩
    exact .inl rfl
  of_write := by
    rintro bufs answer t t' ⟨⟩
    exact .inl rfl
  of_flush := by
    rintro answer t t' ⟨⟩
    rfl

variable {t t' : WatchedStream σ} {written : Nat} {left : List ByteArray}

theorem calls_of_write {answer : Except IoError (Fin (Buffers.size left + 1))}
    (h : ByteStream.write left t = (answer, t')) : t'.calls = t.calls ++ [.write left answer] := by
  cases h
  rfl

theorem calls_of_flush {answer : Except IoError Unit} (h : ByteStream.flush t = (answer, t')) :
    t'.calls = t.calls ++ [.flush answer] := by
  cases h
  rfl

/-- **The loop has a conversation**, and the record grows by it. -/
theorem writes_of_writeFrom {answer : Except IoError Nat}
    (hleft : left ≠ [] → 0 < Buffers.size left)
    (hwrite : ByteStream.writeFrom written left t = (answer, t')) :
    ∃ calls, t'.calls = t.calls ++ calls ∧ Writes written left calls answer := by
  fun_induction ByteStream.writeFrom written left t with
  | case1 written t e u hflush =>
    cases hwrite
    exact ⟨_, calls_of_flush hflush, .flushFailed⟩
  | case2 written t u hflush =>
    cases hwrite
    exact ⟨_, calls_of_flush hflush, .flushed⟩
  | case3 written left t hnil e u hstep hkind ih =>
    obtain ⟨calls, hcalls, hwrites⟩ := ih hleft hwrite
    refine ⟨.write left (.error e) :: calls, ?_, .interrupted (hleft hnil) hkind hwrites⟩
    rw [hcalls, calls_of_write hstep, List.append_assoc, List.singleton_append]
  | case4 written left t hnil e u hstep hkind =>
    cases hwrite
    exact ⟨_, calls_of_write hstep, .failed (hleft hnil) hkind⟩
  | case5 written left t hnil taken u hstep hzero =>
    cases hwrite
    exact ⟨_, calls_of_write hstep, .tookNothing (hleft hnil) hzero⟩
  | case6 written left t hnil taken u hstep hzero ih =>
    obtain ⟨calls, hcalls, hwrites⟩ := ih Buffers.size_advance_pos hwrite
    refine ⟨.write left (.ok taken) :: calls, ?_, .took hzero hwrites⟩
    rw [hcalls, calls_of_write hstep, List.append_assoc, List.singleton_append]

end WatchedStream

/-- **The contract.** Whatever the stream answers, the transport over it makes the calls that it
owes for a request, and gives the result that the answers call for. A stream that is not watched
gets the same calls, for the result and the stream behind them are the same. -/
theorem StreamTransport.writeAll_keeps_contract {σ : Type} [ByteStream σ]
    (t : StreamTransport (WatchedStream σ)) (bufs : List ByteArray) :
    (∃ calls, (Transport.writeAll bufs t).2.stream.calls = t.stream.calls ++ calls ∧
      WriteContract bufs calls (Transport.writeAll bufs t).1) ∧
    Transport.writeAll bufs (StreamTransport.mk t.stream.stream) =
      ((Transport.writeAll bufs t).1, ⟨(Transport.writeAll bufs t).2.stream.stream⟩) := by
  refine ⟨?_, WatchedStream.simulates.transport.writeAll_eq bufs t⟩
  have hwrite : ByteStream.writeFrom 0 (Buffers.advance 0 bufs) t.stream =
      ((Transport.writeAll bufs t).1, (Transport.writeAll bufs t).2.stream) :=
    ByteStream.writeFrom_of_writeAll rfl
  obtain ⟨calls, hcalls, hwrites⟩ :=
    WatchedStream.writes_of_writeFrom Buffers.size_advance_pos hwrite
  exact ⟨calls, hcalls, hwrites.contract (Buffers.join_advance_zero bufs)⟩

end ClassRelay
