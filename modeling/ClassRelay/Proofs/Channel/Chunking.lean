import ClassRelay.Proofs.Channel.RoundTrip
import ClassRelay.Proofs.Stream.Feed

/-!
# It does not matter how bytes arrive

What a channel receives is decided by the bytes that are unread and by the limit of the channel.
`Frame.take` says it for one receive, from the bytes alone, and `Channel.Obeys` says that a
channel keeps to it. Every channel does whose transport gives all bytes and fails only where they
end (`DeliversAll.obeys`): so does one over a queue, and so does one over a stream, in whatever
pieces that gives its bytes.

Channels that keep to it and start from the same unread bytes **agree** for as long as their
transports do not fail, and in that failure (`Channel.AgreeUntilIo`). Behind a failure they need
not: a queue keeps the bytes that were too few for a read, and a stream has used them up.
-/

namespace ClassRelay

open BigEndian

variable {τ τ' : Type} [Transport τ] [Transport τ'] {max : UInt32}

/-! ### One receive -/

namespace Frame

/-- What a receive comes to behind a header that announced `n` bytes, and what it leaves of `x`;
nothing if the announced bytes are not all there. -/
def takeBody (max n : UInt32) (x : ByteArray) :
    Option (Except ChannelError Message × ByteArray) :=
  if max.toNat < n.toNat then
    some (.error (.payloadTooLarge n.toNat max), x)
  else if n.toNat ≤ x.size then
    some (.ok (.ofPayload (x.extract 0 n.toNat)), x.extract n.toNat x.size)
  else none

/-- What a receive comes to at the front of `b`, and what it leaves of `b`; nothing if `b` ends
before the receive does. -/
def take (max : UInt32) (b : ByteArray) : Option (Except ChannelError Message × ByteArray) :=
  if headerSize ≤ b.size then
    takeBody max (Channel.announced (Chunk.ofPrefix headerSize b)) (b.extract headerSize b.size)
  else none

variable {n : UInt32} {b x p rest : ByteArray}

theorem take_of_lt (h : b.size < headerSize) : take max b = none :=
  if_neg (Nat.not_le.mpr h)

/-- A header is read from its four bytes. -/
theorem take_encode32_append (max n : UInt32) (x : ByteArray) :
    take max (encode32 n ++ x) = takeBody max n x := by
  have hsize : (encode32 n ++ x).size = headerSize + x.size := by
    rw [ByteArray.size_append, size_encode32, headerSize]
  have hfull : (Chunk.ofPrefix headerSize (encode32 n ++ x)).bytes = encode32 n :=
    ByteArray.extract_append_eq_left rfl
  have hannounced : Channel.announced (Chunk.ofPrefix headerSize (encode32 n ++ x)) = n := by
    rw [← encode32_inj, Channel.encode32_announced, Chunk.padded_of_size_eq, hfull]
    rw [Chunk.size, hfull, size_encode32, headerSize]
  have hrest : (encode32 n ++ x).extract headerSize (encode32 n ++ x).size = x :=
    ByteArray.extract_append_eq_right rfl (by rw [ByteArray.size_append])
  rw [take, if_pos (by rw [hsize]; omega), hannounced, hrest]

/-- Of a payload that is too large, the header is used up and nothing more. -/
theorem takeBody_of_gt (h : max.toNat < n.toNat) :
    takeBody max n x = some (.error (.payloadTooLarge n.toNat max), x) :=
  if_pos h

theorem takeBody_of_lt (hle : n.toNat ≤ max.toNat) (h : x.size < n.toNat) :
    takeBody max n x = none := by
  rw [takeBody, if_neg (Nat.not_lt.mpr hle), if_neg (Nat.not_le.mpr h)]

/-- A payload is received when it is there, and used up. -/
theorem takeBody_append (hle : n.toNat ≤ max.toNat) (h : p.size = n.toNat) :
    takeBody max n (p ++ rest) = some (.ok (.ofPayload p), rest) := by
  have hsize : n.toNat ≤ (p ++ rest).size := by
    rw [ByteArray.size_append]
    omega
  rw [takeBody, if_neg (Nat.not_lt.mpr hle), if_pos hsize,
    ByteArray.extract_append_eq_left h.symm,
    ByteArray.extract_append_eq_right h.symm (by rw [ByteArray.size_append])]

theorem takeBody_of_zero (h : n.toNat = 0) : takeBody max n x = some (.ok .empty, x) := by
  have hle : n.toNat ≤ max.toNat := h ▸ Nat.zero_le _
  have hbody : takeBody max n (ByteArray.empty ++ x) = some (.ok .empty, x) :=
    takeBody_append hle h.symm
  rwa [ByteArray.empty_append] at hbody

end Frame

namespace Channel

/-- What the channel receives, and the bytes that it leaves unread, are what the unread bytes and
the limit say: the bytes end too early, or the receive comes to what they hold. -/
def Obeys (unread : τ → ByteArray) (c : Channel τ) : Prop :=
  (Frame.take c.maxPayload (unread c.transport) = none ∧
    c.receive.result = .error (.io ByteStream.endedEarly)) ∨
  Frame.take c.maxPayload (unread c.transport) =
    some (c.receive.result, unread c.receive.channel.transport)

end Channel

/-- **One receive.** A transport that gives all its bytes, and fails only where they end, leaves a
channel no choice. -/
theorem DeliversAll.obeys {unread : τ → ByteArray}
    (h : DeliversAll (· = ByteStream.endedEarly) unread) (c : Channel τ) : c.Obeys unread := by
  obtain ⟨calls, t, hchannel, hfollows, hreceives⟩ := c.receives
  rw [Channel.Obeys, hchannel]
  generalize c.receive.result = result at hreceives
  cases hreceives with
  | headerFailed =>
    obtain _ | _ | ⟨hheader, ⟨⟩⟩ := hfollows
    obtain ⟨rfl, -⟩ := h.of_error hheader
    exact .inl ⟨Frame.take_of_lt (h.lt_of_error hheader), rfl⟩
  | headerMiscounted hne =>
    obtain _ | _ | ⟨hheader, ⟨⟩⟩ := hfollows
    exact absurd (h.of_ok hheader).1 hne
  | refused hlt =>
    obtain _ | _ | ⟨hheader, ⟨⟩⟩ := hfollows
    right
    rw [h.header hheader, Frame.take_encode32_append, Frame.takeBody_of_gt hlt]
  | empty hzero =>
    obtain _ | _ | ⟨hheader, ⟨⟩⟩ := hfollows
    right
    rw [h.header hheader, Frame.take_encode32_append, Frame.takeBody_of_zero hzero]
  | bodyFailed hsize hpos hle =>
    obtain _ | _ | ⟨hheader, _ | _ | ⟨hbody, ⟨⟩⟩⟩ := hfollows
    obtain ⟨rfl, -⟩ := h.of_error hbody
    left
    rw [h.header hheader, Frame.take_encode32_append]
    subst hsize
    exact ⟨Frame.takeBody_of_lt hle (h.lt_of_error hbody), rfl⟩
  | bodyMiscounted hsize hpos hle hne =>
    obtain _ | _ | ⟨hheader, _ | _ | ⟨hbody, ⟨⟩⟩⟩ := hfollows
    exact absurd (h.of_ok hbody).1 hne
  | @received header size body hsize hpos hle =>
    obtain _ | _ | ⟨hheader, _ | _ | ⟨hbody, ⟨⟩⟩⟩ := hfollows
    obtain ⟨-, hfull, hpending⟩ := h.of_ok hbody
    right
    -- The body is as long as the header announced, so none of it are zeros of the buffer.
    subst hsize
    rw [h.header hheader, Frame.take_encode32_append, hpending, Frame.takeBody_append hle hfull,
      Chunk.padded_of_size_eq hfull]

/-! ### Receives in a row -/

namespace Channel

/-- The result is a failure of the transport. -/
def isIo : Except ChannelError Message → Bool
  | .error (.io _) => true
  | _ => false

/-- The results up to the first failure of the transport, with that failure. -/
def untilIo : List (Except ChannelError Message) → List (Except ChannelError Message)
  | [] => []
  | result :: results => if isIo result then [result] else result :: untilIo results

/-- Two channels receive alike until their transports fail. -/
structure AgreeUntilIo (unread : τ → ByteArray) (unread' : τ' → ByteArray) (c : Channel τ)
    (c' : Channel τ') : Prop where
  /-- However often they receive, the results are the same up to and including the first failure
  of the transport. -/
  results_eq : ∀ n, untilIo (c'.receiveAll n).1 = untilIo (c.receiveAll n).1
  /-- As long as there is none, they leave the same bytes unread. -/
  unread_eq : ∀ n, (∀ result ∈ (c.receiveAll n).1, isIo result = false) →
    unread' (c'.receiveAll n).2.transport = unread (c.receiveAll n).2.transport

variable {unread : τ → ByteArray} {unread' : τ' → ByteArray} {c : Channel τ} {c' : Channel τ'}

/-- **One receive.** From the same unread bytes and under the same limit, what is received is the
same, and if the transport does not fail, so is what is left. -/
theorem Obeys.agree (h : c.Obeys unread) (h' : c'.Obeys unread')
    (hunread : unread' c'.transport = unread c.transport) (hmax : c'.maxPayload = c.maxPayload) :
    c'.receive.result = c.receive.result ∧ (isIo c.receive.result = false →
      unread' c'.receive.channel.transport = unread c.receive.channel.transport) := by
  rw [Obeys, hunread, hmax] at h'
  rcases h with ⟨hnone, hresult⟩ | hsome
  · rcases h' with ⟨-, hresult'⟩ | hsome'
    · refine ⟨hresult'.trans hresult.symm, fun hio => ?_⟩
      rw [hresult] at hio
      cases hio
    · cases hnone.symm.trans hsome'
  · rcases h' with ⟨hnone', -⟩ | hsome'
    · cases hnone'.symm.trans hsome
    · obtain ⟨hresult, hleft⟩ := Prod.mk.inj (Option.some.inj (hsome'.symm.trans hsome))
      exact ⟨hresult, fun _ => hleft⟩

/-- **A whole run.** -/
theorem agreeUntilIo_of_obeys (h : ∀ c : Channel τ, c.Obeys unread)
    (h' : ∀ c' : Channel τ', c'.Obeys unread') (hunread : unread' c'.transport = unread c.transport)
    (hmax : c'.maxPayload = c.maxPayload) : AgreeUntilIo unread unread' c c' := by
  suffices hrun : ∀ n, untilIo (c'.receiveAll n).1 = untilIo (c.receiveAll n).1 ∧
      ((∀ result ∈ (c.receiveAll n).1, isIo result = false) →
        unread' (c'.receiveAll n).2.transport = unread (c.receiveAll n).2.transport) from
    ⟨fun n => (hrun n).1, fun n => (hrun n).2⟩
  intro n
  induction n generalizing c c' with
  | zero => exact ⟨rfl, fun _ => hunread⟩
  | succ n ih =>
    obtain ⟨hresult, hleft⟩ := (h c).agree (h' c') hunread hmax
    rw [receiveAll, receiveAll]
    dsimp only
    rw [untilIo, untilIo, hresult, List.forall_mem_cons]
    cases hio : isIo c.receive.result with
    | true => exact ⟨rfl, fun hall => by cases hall.1⟩
    | false =>
      have hmax' : c'.receive.channel.maxPayload = c.receive.channel.maxPayload := by
        rw [maxPayload_receive, maxPayload_receive, hmax]
      obtain ⟨hresults, hunread'⟩ := ih (hleft hio) hmax'
      exact ⟨by simp only [hresults], fun hall => hunread' hall.2⟩

variable {σ σ' : Type} [ByteStream σ] [ByteStream σ'] {pending : σ → ByteArray}
  {pending' : σ' → ByteArray} {s : σ} {s' : σ'}

/-- **It does not matter how bytes arrive.** Channels over two streams that give the same bytes,
each in its own pieces and with its own interruptions, agree with each other and with a channel
over a queue of these bytes; and each receive comes to what the bytes say. -/
theorem receives_alike (h : ByteStream.Feeds pending) (h' : ByteStream.Feeds pending')
    (hbytes : pending' s' = pending s) (max : UInt32) :
    AgreeUntilIo (fun t : StreamTransport σ => pending t.stream)
      (fun t : StreamTransport σ' => pending' t.stream) ⟨⟨s⟩, max⟩ ⟨⟨s'⟩, max⟩ ∧
    AgreeUntilIo (fun t : StreamTransport σ => pending t.stream) ByteQueue.bytes ⟨⟨s⟩, max⟩
      ⟨⟨pending s⟩, max⟩ ∧
    (∀ c : Channel (StreamTransport σ), c.Obeys fun t => pending t.stream) ∧
    ∀ c : Channel ByteQueue, c.Obeys ByteQueue.bytes := by
  have hstream : ∀ c : Channel (StreamTransport σ), c.Obeys fun t => pending t.stream :=
    h.deliversAll.obeys
  have hstream' : ∀ c : Channel (StreamTransport σ'), c.Obeys fun t => pending' t.stream :=
    h'.deliversAll.obeys
  have hqueue : ∀ c : Channel ByteQueue, c.Obeys ByteQueue.bytes := ByteQueue.deliversAll.obeys
  exact ⟨agreeUntilIo_of_obeys hstream hstream' hbytes rfl,
    agreeUntilIo_of_obeys hstream hqueue rfl rfl, hstream, hqueue⟩

/-- An empty frame, the header of a frame of nine bytes, a frame of two, and the start of one of
three, as one piece. -/
def onePiece : Feed :=
  ⟨[.gives ⟨#[0, 0, 0, 0, 0, 0, 0, 9, 0, 0, 0, 2, 7, 8, 0, 0, 0, 3, 1]⟩ (by decide)]⟩

/-- The same bytes in pieces that end inside headers and payloads, with interruptions. -/
def manyPieces : Feed :=
  ⟨[.interrupts, .gives ⟨#[0, 0]⟩ (by decide), .interrupts, .gives ⟨#[0, 0, 0]⟩ (by decide),
    .gives ⟨#[0, 0, 9, 0, 0, 0, 2, 7]⟩ (by decide), .interrupts, .interrupts,
    .gives ⟨#[8, 0, 0, 0, 3]⟩ (by decide), .gives ⟨#[1]⟩ (by decide)]⟩

theorem receives_alike_pieces :
    ByteStream.Feeds Feed.bytes ∧ manyPieces.bytes = onePiece.bytes ∧
      untilIo (receiveAll ⟨StreamTransport.mk onePiece, 5⟩ 4).1 =
        [.ok .empty, .error (.payloadTooLarge 9 5), .ok (.ofPayload ⟨#[7, 8]⟩),
          .error (.io ByteStream.endedEarly)] ∧
      untilIo (receiveAll ⟨StreamTransport.mk manyPieces, 5⟩ 4).1 =
        untilIo (receiveAll ⟨StreamTransport.mk onePiece, 5⟩ 4).1 := by
  have hbytes : manyPieces.bytes = onePiece.bytes := by decide
  obtain ⟨hpieces, hqueue, -⟩ := receives_alike Feed.feeds Feed.feeds hbytes 5
  refine ⟨Feed.feeds, hbytes, ?_, hpieces.results_eq 4⟩
  rw [← hqueue.results_eq 4]
  rfl

end Channel

end ClassRelay
