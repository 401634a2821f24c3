import ClassRelay.Proofs.Channel.Queue

/-!
# Sending and receiving in a row

What is sent over a transport that keeps bytes in order is received as it was sent, however many
payloads there are and whatever follows them; and what was received, sent again, is written as
it was read. `Channel.framing_round_trip` states both, for all lists of payloads, and with them
that different lists are written differently.
-/

namespace ClassRelay

/-! ### Operations in a row -/

namespace Channel

variable {τ : Type} [Transport τ]

/-- Sends payloads, one after the other, whatever becomes of each. -/
def sendAll (c : Channel τ) : List ByteArray → List (Except ChannelError Nat) × Channel τ
  | [] => ([], c)
  | payload :: payloads =>
    let sent := c.send payload
    let rest := sent.channel.sendAll payloads
    (sent.result :: rest.1, rest.2)

/-- Receives a number of messages, one after the other, whatever becomes of each. -/
def receiveAll (c : Channel τ) : Nat → List (Except ChannelError Message) × Channel τ
  | 0 => ([], c)
  | n + 1 =>
    let received := c.receive
    let rest := received.channel.receiveAll n
    (received.result :: rest.1, rest.2)

end Channel

section

variable {τ : Type} [Transport τ] {fails : IoError → Prop} {written pending : τ → ByteArray}
  {payloads : List ByteArray}

/-- Payloads that are let pass are written as frames, one behind the other. -/
theorem AcceptsAll.sendAll (h : AcceptsAll written) (c : Channel τ)
    (hle : ∀ p ∈ payloads, p.size ≤ c.maxPayload.toNat) :
    (c.sendAll payloads).1 = payloads.map (fun p => .ok (headerSize + p.size)) ∧
      written (c.sendAll payloads).2.transport =
        written c.transport ++ Frame.encodeAll payloads := by
  induction payloads generalizing c with
  | nil => exact ⟨rfl, ByteArray.append_empty.symm⟩
  | cons p ps ih =>
    rw [List.forall_mem_cons] at hle
    have hle' : ∀ p' ∈ ps, p'.size ≤ (c.send p).channel.maxPayload.toNat := by
      rw [Channel.maxPayload_send]
      exact hle.2
    obtain ⟨hresult, hwritten⟩ := h.send c hle.1
    obtain ⟨hresults, hrest⟩ := ih (c.send p).channel hle'
    rw [Channel.sendAll]
    refine ⟨?_, ?_⟩
    · rw [hresult, hresults, List.map_cons]
    · rw [hrest, hwritten, Frame.encodeAll_cons, ByteArray.append_assoc]

/-- Payloads whose frames are at the front, and which are let pass, are received. -/
theorem DeliversAll.receiveAll (h : DeliversAll fails pending) (c : Channel τ) {rest : ByteArray}
    (hle : ∀ p ∈ payloads, p.size ≤ c.maxPayload.toNat)
    (hpending : pending c.transport = Frame.encodeAll payloads ++ rest) :
    ∃ messages : List Message, (c.receiveAll payloads.length).1 = messages.map .ok ∧
      messages.map Message.bytes = payloads ∧
      pending (c.receiveAll payloads.length).2.transport = rest := by
  induction payloads generalizing c with
  | nil => exact ⟨[], rfl, rfl, hpending.trans ByteArray.empty_append⟩
  | cons p ps ih =>
    rw [List.forall_mem_cons] at hle
    rw [Frame.encodeAll_cons, ByteArray.append_assoc] at hpending
    have hle' : ∀ p' ∈ ps, p'.size ≤ c.receive.channel.maxPayload.toNat := by
      rw [Channel.maxPayload_receive]
      exact hle.2
    -- The first frame is received, and leaves the others to the rest of the run.
    obtain ⟨m, hresult, hbytes, hpending⟩ := h.receive c hle.1 hpending
    obtain ⟨ms, hresults, hbytess, hrest⟩ := ih c.receive.channel hle' hpending
    refine ⟨m :: ms, ?_, ?_, hrest⟩
    · rw [List.length_cons, Channel.receiveAll, hresult, hresults, List.map_cons]
    · rw [List.map_cons, hbytes, hbytess]

/-- Messages that were received were let pass, and their frames were at the front. -/
theorem Delivers.of_receiveAll (h : Delivers fails pending) (c : Channel τ) {n : Nat}
    {messages : List Message} (hok : (c.receiveAll n).1 = messages.map .ok) :
    (∀ p ∈ messages.map Message.bytes, p.size ≤ c.maxPayload.toNat) ∧
      pending c.transport = Frame.encodeAll (messages.map Message.bytes) ++
        pending (c.receiveAll n).2.transport := by
  induction n generalizing c messages with
  | zero =>
    obtain rfl : messages = [] := List.map_eq_nil_iff.mp hok.symm
    exact ⟨List.forall_mem_nil _, ByteArray.empty_append.symm⟩
  | succ n ih =>
    obtain ⟨m, ms, rfl, hresult, hresults⟩ := List.map_eq_cons_iff.mp hok.symm
    obtain ⟨b, htaken, hb⟩ := h.receive c
    -- A receive that succeeds has taken a whole frame.
    rw [← hresult] at htaken
    cases htaken with
    | whole hm =>
      obtain ⟨hle, hrest⟩ := ih c.receive.channel hresults.symm
      rw [Channel.maxPayload_receive] at hle
      rw [List.map_cons, List.forall_mem_cons]
      refine ⟨⟨hm, hle⟩, ?_⟩
      rw [hb, hrest, Frame.encodeAll_cons, ByteArray.append_assoc]
      rfl

end

/-! ### Round trips -/

variable {σ τ : Type} [Transport σ] [Transport τ]

/-- What one channel sends and the other receives is the same, in both directions. -/
structure RoundTrips (written : σ → ByteArray) (pending : τ → ByteArray) (sender : Channel σ)
    (receiver : Channel τ) : Prop where
  /-- Payloads that both let pass are all sent. If what was written is at the front of what is
  pending, then they are received in order, and what follows them stays. -/
  received : ∀ payloads,
    (∀ p ∈ payloads, p.size ≤ sender.maxPayload.toNat ∧ p.size ≤ receiver.maxPayload.toNat) →
    (sender.sendAll payloads).1 = payloads.map (fun p => .ok (headerSize + p.size)) ∧
      written (sender.sendAll payloads).2.transport =
        written sender.transport ++ Frame.encodeAll payloads ∧
      ∀ rest, pending receiver.transport = Frame.encodeAll payloads ++ rest →
        ∃ messages : List Message, (receiver.receiveAll payloads.length).1 = messages.map .ok ∧
          messages.map Message.bytes = payloads ∧
          pending (receiver.receiveAll payloads.length).2.transport = rest
  /-- Messages that were received are all sent again, under a limit that is not smaller, and are
  written as the bytes that they were received from. -/
  resent : receiver.maxPayload ≤ sender.maxPayload → ∀ n (messages : List Message),
    (receiver.receiveAll n).1 = messages.map .ok →
    ∃ wire,
      pending receiver.transport = wire ++ pending (receiver.receiveAll n).2.transport ∧
      (sender.sendAll (messages.map Message.bytes)).1 =
        messages.map (fun m => .ok (headerSize + m.bytes.size)) ∧
      written (sender.sendAll (messages.map Message.bytes)).2.transport =
        written sender.transport ++ wire
  /-- Different payloads are written differently. -/
  injective : ∀ ps qs, (∀ p ∈ ps, p.size ≤ sender.maxPayload.toNat) →
    (∀ q ∈ qs, q.size ≤ sender.maxPayload.toNat) →
    written (sender.sendAll ps).2.transport = written (sender.sendAll qs).2.transport → ps = qs

/-- **The framing round trip**, over all transports that keep bytes in order. -/
theorem Channel.framing_round_trip {fails : IoError → Prop} {written : σ → ByteArray}
    {pending : τ → ByteArray} (haccepts : AcceptsAll written)
    (hdelivers : DeliversAll fails pending) (sender : Channel σ)
    (receiver : Channel τ) : RoundTrips written pending sender receiver where
  received := by
    intro payloads hle
    obtain ⟨hresults, hwritten⟩ := haccepts.sendAll sender fun p hp => (hle p hp).1
    refine ⟨hresults, hwritten, fun rest hpending => ?_⟩
    exact hdelivers.receiveAll receiver (fun p hp => (hle p hp).2) hpending
  resent := by
    intro hlimit n messages hok
    obtain ⟨hle, hpending⟩ := hdelivers.of_receiveAll receiver hok
    have hle' : ∀ p ∈ messages.map Message.bytes, p.size ≤ sender.maxPayload.toNat :=
      fun p hp => Nat.le_trans (hle p hp) (UInt32.le_iff_toNat_le.mp hlimit)
    obtain ⟨hresults, hwritten⟩ := haccepts.sendAll sender hle'
    rw [List.map_map] at hresults
    exact ⟨_, hpending, hresults, hwritten⟩
  injective := by
    intro ps qs hps hqs heq
    rw [(haccepts.sendAll sender hps).2, (haccepts.sendAll sender hqs).2] at heq
    have hframes : Frame.encodeAll ps = Frame.encodeAll qs := (ByteArray.append_right_inj _).mp heq
    refine Frame.encodeAll_inj (fun p hp => ?_) (fun q hq => ?_) hframes
    · exact Frame.fits_of_le (hps p hp)
    · exact Frame.fits_of_le (hqs q hq)

/-- Between two queues: no payload, one that looks like a header, and one that is a zero byte are
received as they were sent, and a byte that follows them stays. -/
theorem Channel.framing_round_trip_queue :
    AcceptsAll ByteQueue.bytes ∧ DeliversAll (· = ByteStream.endedEarly) ByteQueue.bytes ∧
      (sendAll ⟨ByteQueue.mk ⟨#[9]⟩, 4⟩ [⟨#[]⟩, ⟨#[0, 0, 0, 3]⟩, ⟨#[0]⟩]).1 =
        [.ok 4, .ok 8, .ok 5] ∧
      ∃ messages : List Message,
        (receiveAll ⟨ByteQueue.mk
          ⟨#[0, 0, 0, 0, 0, 0, 0, 4, 0, 0, 0, 3, 0, 0, 0, 1, 0, 255]⟩, 5⟩ 3).1 =
          messages.map .ok ∧
        messages.map Message.bytes = [⟨#[]⟩, ⟨#[0, 0, 0, 3]⟩, ⟨#[0]⟩] ∧
        (receiveAll ⟨ByteQueue.mk
          ⟨#[0, 0, 0, 0, 0, 0, 0, 4, 0, 0, 0, 3, 0, 0, 0, 1, 0, 255]⟩, 5⟩ 3).2.transport.bytes =
            ⟨#[255]⟩ := by
  obtain ⟨hsent, -, hreceived⟩ := (framing_round_trip ByteQueue.acceptsAll
    ByteQueue.deliversAll ⟨⟨⟨#[9]⟩⟩, 4⟩ ⟨ByteQueue.mk
      ⟨#[0, 0, 0, 0, 0, 0, 0, 4, 0, 0, 0, 3, 0, 0, 0, 1, 0, 255]⟩, 5⟩).received
    [⟨#[]⟩, ⟨#[0, 0, 0, 3]⟩, ⟨#[0]⟩] (by decide)
  obtain ⟨messages, hok, hbytes, hrest⟩ := hreceived ⟨#[255]⟩ (by decide)
  exact ⟨ByteQueue.acceptsAll, ByteQueue.deliversAll, hsent, messages, hok, hbytes, hrest⟩

end ClassRelay
