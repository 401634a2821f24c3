import ClassRelay.Proofs.Channel.Frame

/-!
# How an operation ends

An operation of a channel is a conversation with its transport. `Sends` and `Receives` list the
conversations, each with the result that it leads to: the calls of the transport, and its answers
to them. They hold of **every transport**: nothing is assumed about the counts that it reports,
the bytes that it leaves in a buffer, or its errors.

`Channel.sends` and `Channel.receives` say that the operations have these conversations and no
others. What is known of a transport is combined with them by cases; the operations themselves
are not opened again.
-/

namespace ClassRelay

/-! ### The limit -/

namespace Channel

variable {τ : Type} {c : Channel τ} {size : Nat}

theorem checkSize_of_le (h : size ≤ c.maxPayload.toNat) :
    c.checkSize size = .ok (UInt32.ofNat size) :=
  if_pos h

theorem checkSize_of_lt (h : c.maxPayload.toNat < size) :
    c.checkSize size = .error (.payloadTooLarge size c.maxPayload) :=
  if_neg (Nat.not_le.mpr h)

theorem checkSize_toNat_of_le {n : UInt32} (h : n.toNat ≤ c.maxPayload.toNat) :
    c.checkSize n.toNat = .ok n := by
  rw [checkSize_of_le h, UInt32.ofNat_toNat]

end Channel

/-! ### Conversations -/

/-- A call of a transport, with the answer to it. -/
inductive Call
  | write (bufs : List ByteArray) (answer : Except IoError Nat)
  | read (n : Nat) (answer : Except IoError (Nat × Chunk n))

/-- The ways in which a channel with the limit `max` sends a payload. -/
inductive Sends (max : UInt32) (payload : ByteArray) :
    List Call → Except ChannelError Nat → Prop
  /-- The payload is too large; the transport is not asked. -/
  | refused (hlt : max.toNat < payload.size) :
    Sends max payload [] (.error (.payloadTooLarge payload.size max))
  | failed {e : IoError} (hle : payload.size ≤ max.toNat) :
    Sends max payload [.write (Frame.buffers payload) (.error e)] (.error (.io e))
  /-- Another number of bytes is reported than the frame has. -/
  | miscounted {count : Nat} (hle : payload.size ≤ max.toNat)
    (hne : count ≠ headerSize + payload.size) :
    Sends max payload [.write (Frame.buffers payload) (.ok count)]
      (.error (.shortWrite (headerSize + payload.size) count))
  | sent (hle : payload.size ≤ max.toNat) :
    Sends max payload [.write (Frame.buffers payload) (.ok (headerSize + payload.size))]
      (.ok (headerSize + payload.size))

/-- The ways in which a channel with the limit `max` receives a message. -/
inductive Receives (max : UInt32) : List Call → Except ChannelError Message → Prop
  | headerFailed {e : IoError} :
    Receives max [.read headerSize (.error e)] (.error (.io e))
  /-- Another number of bytes is reported than a header has. -/
  | headerMiscounted {count : Nat} {header : Chunk headerSize} (hne : count ≠ headerSize) :
    Receives max [.read headerSize (.ok (count, header))] (.error (.shortRead headerSize count))
  /-- The announced payload is too large; it is not read. -/
  | refused {header : Chunk headerSize} (hlt : max.toNat < (Channel.announced header).toNat) :
    Receives max [.read headerSize (.ok (headerSize, header))]
      (.error (.payloadTooLarge (Channel.announced header).toNat max))
  /-- The announced payload is empty; there is nothing to read. -/
  | empty {header : Chunk headerSize} (hzero : (Channel.announced header).toNat = 0) :
    Receives max [.read headerSize (.ok (headerSize, header))] (.ok .empty)
  | bodyFailed {header : Chunk headerSize} {size : Nat} {e : IoError}
    (hsize : (Channel.announced header).toNat = size) (hpos : 0 < size) (hle : size ≤ max.toNat) :
    Receives max [.read headerSize (.ok (headerSize, header)), .read size (.error e)]
      (.error (.io e))
  /-- Another number of bytes is reported than the announced one. -/
  | bodyMiscounted {header : Chunk headerSize} {size count : Nat} {body : Chunk size}
    (hsize : (Channel.announced header).toNat = size) (hpos : 0 < size) (hle : size ≤ max.toNat)
    (hne : count ≠ size) :
    Receives max [.read headerSize (.ok (headerSize, header)), .read size (.ok (count, body))]
      (.error (.shortRead size count))
  | received {header : Chunk headerSize} {size : Nat} {body : Chunk size}
    (hsize : (Channel.announced header).toNat = size) (hpos : 0 < size) (hle : size ≤ max.toNat) :
    Receives max [.read headerSize (.ok (headerSize, header)), .read size (.ok (size, body))]
      (.ok (.ofPayload body.padded))

variable {τ : Type} [Transport τ]

/-- The calls, with these answers, take a transport from one state to another. -/
inductive Follows : List Call → τ → τ → Prop
  | nil {t : τ} : Follows [] t t
  | write {bufs : List ByteArray} {answer : Except IoError Nat} {calls : List Call} {t t' t'' : τ}
    (h : Transport.writeAll bufs t = (answer, t')) (hcalls : Follows calls t' t'') :
    Follows (.write bufs answer :: calls) t t''
  | read {n : Nat} {answer : Except IoError (Nat × Chunk n)} {calls : List Call} {t t' t'' : τ}
    (h : Transport.fill n t = (answer, t')) (hcalls : Follows calls t' t'') :
    Follows (.read n answer :: calls) t t''

/-! ### The operations -/

namespace Channel

variable {c : Channel τ}

/-! #### One call of the transport -/

section Calls

variable {t : τ} {bufs : List ByteArray} {n count : Nat} {e : IoError} {chunk : Chunk n}

theorem write_of_error (h : Transport.writeAll bufs c.transport = (.error e, t)) :
    c.write bufs = (.error (.io e), { c with transport := t }) := by
  rw [write, h]

theorem write_of_eq (h : Transport.writeAll bufs c.transport = (.ok (Buffers.size bufs), t)) :
    c.write bufs = (.ok (Buffers.size bufs), { c with transport := t }) := by
  rw [write, h]
  simp only [if_true]

theorem write_of_ne (h : Transport.writeAll bufs c.transport = (.ok count, t))
    (hne : count ≠ Buffers.size bufs) :
    c.write bufs = (.error (.shortWrite (Buffers.size bufs) count), { c with transport := t }) := by
  rw [write, h]
  simp only [if_neg hne]

theorem fill_of_error (h : Transport.fill n c.transport = (.error e, t)) :
    c.fill n = (.error (.io e), { c with transport := t }) := by
  rw [fill, h]

theorem fill_of_eq (h : Transport.fill n c.transport = (.ok (n, chunk), t)) :
    c.fill n = (.ok chunk, { c with transport := t }) := by
  rw [fill, h]
  simp only [if_true]

theorem fill_of_ne (h : Transport.fill n c.transport = (.ok (count, chunk), t))
    (hne : count ≠ n) :
    c.fill n = (.error (.shortRead n count), { c with transport := t }) := by
  rw [fill, h]
  simp only [if_neg hne]

end Calls

/-! #### Whole operations -/

/-- A send has one of its conversations, and changes nothing of the channel but its transport. -/
theorem sends (c : Channel τ) (payload : ByteArray) : ∃ calls t,
    (c.send payload).channel = { c with transport := t } ∧ Follows calls c.transport t ∧
      Sends c.maxPayload payload calls (c.send payload).result := by
  rcases Nat.lt_or_ge c.maxPayload.toNat payload.size with hlt | hle
  · rw [send, checkSize_of_lt hlt]
    exact ⟨[], c.transport, rfl, .nil, .refused hlt⟩
  · -- What is handed to the transport are the buffers of the frame.
    have hbuffers :
      [BigEndian.encode32 (UInt32.ofNat payload.size), payload] = Frame.buffers payload := rfl
    simp only [send, checkSize_of_le hle, hbuffers]
    cases h : Transport.writeAll (Frame.buffers payload) c.transport with
    | mk answer t =>
      refine ⟨[.write (Frame.buffers payload) answer], t, ?_⟩
      cases answer with
      | error e =>
        rw [write_of_error h]
        exact ⟨rfl, .write h .nil, .failed hle⟩
      | ok count =>
        by_cases hcount : count = Buffers.size (Frame.buffers payload)
        · subst hcount
          rw [write_of_eq h]
          exact ⟨rfl, .write h .nil, .sent hle⟩
        · rw [write_of_ne h hcount]
          exact ⟨rfl, .write h .nil, .miscounted hle hcount⟩

/-- The second half of a receive, behind a header that was read and let pass. -/
private theorem receiveBody_receives {c : Channel τ} {t : τ} {header : Chunk headerSize}
    {size : Nat} (h : Transport.fill headerSize t = (.ok (headerSize, header), c.transport))
    (hsize : (announced header).toNat = size) (hle : size ≤ c.maxPayload.toNat) : ∃ calls t',
    (c.receiveBody size).channel = { c with transport := t' } ∧ Follows calls t t' ∧
      Receives c.maxPayload calls (c.receiveBody size).result := by
  rw [receiveBody]
  by_cases hzero : size = 0
  · rw [if_pos hzero]
    exact ⟨_, c.transport, rfl, .read h .nil, .empty (hsize.trans hzero)⟩
  · have hpos : 0 < size := Nat.pos_of_ne_zero hzero
    rw [if_neg hzero]
    cases h' : Transport.fill size c.transport with
    | mk answer t' =>
      have hfollows :
          Follows [.read headerSize (.ok (headerSize, header)), .read size answer] t t' :=
        .read h (.read h' .nil)
      refine ⟨[.read headerSize (.ok (headerSize, header)), .read size answer], t', ?_⟩
      cases answer with
      | error e =>
        rw [fill_of_error h']
        exact ⟨rfl, hfollows, .bodyFailed hsize hpos hle⟩
      | ok answer =>
        obtain ⟨count, body⟩ := answer
        by_cases hcount : count = size
        · subst hcount
          rw [fill_of_eq h']
          exact ⟨rfl, hfollows, .received hsize hpos hle⟩
        · rw [fill_of_ne h' hcount]
          exact ⟨rfl, hfollows, .bodyMiscounted hsize hpos hle hcount⟩

/-- A receive has one of its conversations, and changes nothing of the channel but its
transport. -/
theorem receives (c : Channel τ) : ∃ calls t,
    c.receive.channel = { c with transport := t } ∧ Follows calls c.transport t ∧
      Receives c.maxPayload calls c.receive.result := by
  rw [receive]
  cases h : Transport.fill headerSize c.transport with
  | mk answer t =>
    cases answer with
    | error e =>
      rw [fill_of_error h]
      exact ⟨_, t, rfl, .read h .nil, .headerFailed⟩
    | ok answer =>
      obtain ⟨count, header⟩ := answer
      by_cases hcount : count = headerSize
      · subst hcount
        rw [fill_of_eq h]
        dsimp only
        -- The limit is looked at before anything more is read.
        rcases Nat.lt_or_ge c.maxPayload.toNat (announced header).toNat with hlt | hle
        · rw [checkSize_of_lt (c := { c with transport := t }) hlt]
          exact ⟨_, t, rfl, .read h .nil, .refused hlt⟩
        · rw [checkSize_toNat_of_le (c := { c with transport := t }) hle]
          exact receiveBody_receives (c := { c with transport := t }) h rfl hle
      · rw [fill_of_ne h hcount]
        exact ⟨_, t, rfl, .read h .nil, .headerMiscounted hcount⟩

/-! #### What the conversations have in common -/

@[simp] theorem maxPayload_send (c : Channel τ) (payload : ByteArray) :
    (c.send payload).channel.maxPayload = c.maxPayload := by
  obtain ⟨calls, t, hchannel, -⟩ := c.sends payload
  rw [hchannel]

@[simp] theorem maxPayload_receive (c : Channel τ) :
    c.receive.channel.maxPayload = c.maxPayload := by
  obtain ⟨calls, t, hchannel, -⟩ := c.receives
  rw [hchannel]

/-- What writes leave alone, a send leaves alone. -/
theorem send_keeps {α : Type} {f : τ → α}
    (c : Channel τ)
    (h : ∀ {bufs t answer t'}, Transport.writeAll bufs t = (answer, t') → f t' = f t)
    (payload : ByteArray) :
    f (c.send payload).channel.transport = f c.transport := by
  obtain ⟨calls, t, hchannel, hfollows, hsends⟩ := c.sends payload
  rw [hchannel]
  generalize (c.send payload).result = result at hsends
  cases hsends with
  | refused =>
    cases hfollows
    rfl
  | failed | miscounted | sent =>
    obtain _ | ⟨hwrite, ⟨⟩⟩ := hfollows
    exact h hwrite

/-- What reads leave alone, a receive leaves alone. -/
theorem receive_keeps {α : Type} {f : τ → α} (c : Channel τ)
    (h : ∀ {n t answer t'}, Transport.fill n t = (answer, t') → f t' = f t) :
    f c.receive.channel.transport = f c.transport := by
  obtain ⟨calls, t, hchannel, hfollows, hreceives⟩ := c.receives
  rw [hchannel]
  generalize c.receive.result = result at hreceives
  cases hreceives with
  | headerFailed | headerMiscounted | refused | empty =>
    obtain _ | _ | ⟨hheader, ⟨⟩⟩ := hfollows
    exact h hheader
  | bodyFailed | bodyMiscounted | received =>
    obtain _ | _ | ⟨hheader, _ | _ | ⟨hbody, ⟨⟩⟩⟩ := hfollows
    exact (h hbody).trans (h hheader)

/-- A request that was not sent is not waited for. -/
theorem exchange_of_error {request : ByteArray} {e : ChannelError}
    (h : (c.send request).result = .error e) :
    (c.exchange request).result = .error e ∧
      (c.exchange request).channel = (c.send request).channel := by
  rw [exchange]
  generalize c.send request = sent at h
  obtain ⟨result, channel, events⟩ := sent
  cases h
  exact ⟨rfl, rfl⟩

/-- Behind a request that was sent, the response is received. -/
theorem exchange_of_ok {request : ByteArray} {count : Nat}
    (h : (c.send request).result = .ok count) :
    (c.exchange request).result = (c.send request).channel.receive.result ∧
      (c.exchange request).channel = (c.send request).channel.receive.channel := by
  rw [exchange]
  generalize c.send request = sent at h
  obtain ⟨result, channel, events⟩ := sent
  cases h
  exact ⟨rfl, rfl⟩

/-- What writes and reads leave alone, an exchange leaves alone. -/
theorem exchange_keeps {α : Type} {f : τ → α} (c : Channel τ)
    (hwrite : ∀ {bufs t answer t'}, Transport.writeAll bufs t = (answer, t') → f t' = f t)
    (hread : ∀ {n t answer t'}, Transport.fill n t = (answer, t') → f t' = f t)
    (request : ByteArray) : f (c.exchange request).channel.transport = f c.transport := by
  have hsend := c.send_keeps hwrite request
  cases hresult : (c.send request).result with
  | error e => rw [(exchange_of_error hresult).2, hsend]
  | ok count => rw [(exchange_of_ok hresult).2, receive_keeps _ hread, hsend]

end Channel

end ClassRelay
