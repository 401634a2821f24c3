import ClassRelay.Proofs.Channel.Outcomes

/-!
# Transports that keep bytes in order

What a channel needs of its transport is that bytes stay in order and are neither lost nor made
up. A transport `Accepts` what is written if the bytes `written` so far grow by the buffers of
each write, and `Delivers` what is `pending` if each read takes its bytes from the front of it.
Operations may fail, with errors that are known to be among `fails`: a failed write may have
taken some of its bytes, and a failed read may have used some up, but fewer than it was asked
for. With `AcceptsAll` no write fails, and with `DeliversAll` no read that finds bytes enough.

Over such transports a send adds to what is written, and a receive takes from what is pending.
The results tell which bytes: `Sent` (`Accepts.send`), `Taken` (`Delivers.receive`) and, over a
transport that is `Duplex`, `Exchanged` (`Duplex.exchange`).
-/

namespace ClassRelay

open BigEndian

/-! ### Results and bytes -/

section

variable (fails : IoError → Prop) (max : UInt32)

/-- What a send of `payload` adds to the written bytes, by its result. -/
inductive Sent (payload : ByteArray) : Except ChannelError Nat → ByteArray → Prop
  | whole (hle : payload.size ≤ max.toNat) :
    Sent payload (.ok (headerSize + payload.size)) (Frame.encode payload)
  | part {e : IoError} {b rest : ByteArray} (he : fails e)
    (h : Frame.encode payload = b ++ rest) : Sent payload (.error (.io e)) b
  | refused (hlt : max.toNat < payload.size) :
    Sent payload (.error (.payloadTooLarge payload.size max)) ByteArray.empty

/-- What a receive takes from the pending bytes, by its result. -/
inductive Taken : Except ChannelError Message → ByteArray → Prop
  | whole {m : Message} (hle : m.bytes.size ≤ max.toNat) : Taken (.ok m) (Frame.encode m.bytes)
  | part {e : IoError} {b : ByteArray} (he : fails e) (h : Frame.Incomplete b) :
    Taken (.error (.io e)) b
  | refused {n : UInt32} (hlt : max.toNat < n.toNat) :
    Taken (.error (.payloadTooLarge n.toNat max)) (encode32 n)

end

/-- What an exchange takes from the pending bytes and adds to the written ones, by its result. -/
inductive Exchanged (readFails writeFails : IoError → Prop) (max : UInt32) (request : ByteArray) :
    Except ChannelError Message → (taken sent : ByteArray) → Prop
  | unsent {e : ChannelError} {b : ByteArray} (h : Sent writeFails max request (.error e) b) :
    Exchanged readFails writeFails max request (.error e) ByteArray.empty b
  | unanswered {e : ChannelError} {b : ByteArray} (h : Taken readFails max (.error e) b) :
    Exchanged readFails writeFails max request (.error e) b (Frame.encode request)
  | whole {m : Message} (hle : m.bytes.size ≤ max.toNat) :
    Exchanged readFails writeFails max request (.ok m) (Frame.encode m.bytes)
      (Frame.encode request)

section

variable {fails : IoError → Prop} {max : UInt32} {payload b x : ByteArray} {e : ChannelError}

/-- What is sent of a payload is the front of its frame, whatever the result. -/
theorem Sent.exists_eq_append {result : Except ChannelError Nat}
    (h : Sent fails max payload result b) : ∃ rest, Frame.encode payload = b ++ rest := by
  cases h with
  | whole => exact ⟨ByteArray.empty, ByteArray.append_empty.symm⟩
  | part he h => exact ⟨_, h⟩
  | refused => exact ⟨_, ByteArray.empty_append.symm⟩

/-- A payload that is let pass is not sent only if the transport fails. -/
theorem Sent.exists_io (h : Sent fails max payload (.error e) b)
    (hle : payload.size ≤ max.toNat) : ∃ e', e = .io e' ∧ fails e' := by
  cases h with
  | part he => exact ⟨_, rfl, he⟩
  | refused hlt => exact absurd hle (Nat.not_le.mpr hlt)

/-- At the front of frames that are let pass, a receive fails only if the transport does. -/
theorem Taken.exists_io {ps : List ByteArray} (h : Taken fails max (.error e) b)
    (hps : ∀ p ∈ ps, p.size ≤ max.toNat) (hb : b ++ x = Frame.encodeAll ps) :
    ∃ e', e = .io e' ∧ fails e' := by
  cases h with
  | part he => exact ⟨_, rfl, he⟩
  | @refused n hlt =>
    cases ps with
    | nil =>
      have hsize := congrArg ByteArray.size hb
      rw [ByteArray.size_append, size_encode32, Frame.encodeAll_nil, ByteArray.size_empty] at hsize
      omega
    | cons p ps =>
      have hp : p.size ≤ max.toNat := hps p List.mem_cons_self
      obtain ⟨rfl, -⟩ := Frame.encode_append_eq_iff.mp hb.symm
      rw [Frame.toNat_length (Frame.fits_of_le hp)] at hlt
      exact absurd hp (Nat.not_le.mpr hlt)

end

variable {τ : Type} [Transport τ] {fails : IoError → Prop}

/-! ### Writing -/

/-- Writes add their bytes, in order, to those `written`. -/
structure Accepts (fails : IoError → Prop) (written : τ → ByteArray) : Prop where
  of_ok : ∀ {bufs : List ByteArray} {count : Nat} {t t' : τ},
    Transport.writeAll bufs t = (.ok count, t') →
      count = Buffers.size bufs ∧ written t' = written t ++ Buffers.join bufs
  of_error : ∀ {bufs : List ByteArray} {e : IoError} {t t' : τ},
    Transport.writeAll bufs t = (.error e, t') →
      fails e ∧ ∃ b rest, Buffers.join bufs = b ++ rest ∧ written t' = written t ++ b

/-- No write fails. -/
def AcceptsAll (written : τ → ByteArray) : Prop :=
  Accepts (fun _ => False) written

namespace Accepts

variable {written : τ → ByteArray}

theorem send (h : Accepts fails written) (c : Channel τ) (payload : ByteArray) :
    ∃ b, Sent fails c.maxPayload payload (c.send payload).result b ∧
      written (c.send payload).channel.transport = written c.transport ++ b := by
  obtain ⟨calls, t, hchannel, hfollows, hsends⟩ := c.sends payload
  rw [hchannel]
  generalize (c.send payload).result = result at hsends
  cases hsends with
  | refused hlt =>
    cases hfollows
    exact ⟨_, .refused hlt, ByteArray.append_empty.symm⟩
  | failed =>
    obtain _ | ⟨hwrite, ⟨⟩⟩ := hfollows
    obtain ⟨he, b, rest, hb, hwritten⟩ := h.of_error hwrite
    rw [Frame.join_buffers] at hb
    exact ⟨b, .part he hb, hwritten⟩
  | miscounted hle hne =>
    obtain _ | ⟨hwrite, ⟨⟩⟩ := hfollows
    exact absurd (h.of_ok hwrite).1 hne
  | sent hle =>
    obtain _ | ⟨hwrite, ⟨⟩⟩ := hfollows
    obtain ⟨-, hwritten⟩ := h.of_ok hwrite
    rw [Frame.join_buffers] at hwritten
    exact ⟨_, .whole hle, hwritten⟩

end Accepts

/-- A payload that is let pass is written. -/
theorem AcceptsAll.send {written : τ → ByteArray} (h : AcceptsAll written) (c : Channel τ)
    {payload : ByteArray} (hle : payload.size ≤ c.maxPayload.toNat) :
    (c.send payload).result = .ok (headerSize + payload.size) ∧
      written (c.send payload).channel.transport =
        written c.transport ++ Frame.encode payload := by
  obtain ⟨b, hsent, hwritten⟩ := Accepts.send h c payload
  generalize (c.send payload).result = result at hsent
  cases hsent with
  | whole => exact ⟨rfl, hwritten⟩
  | part he => exact he.elim
  | refused hlt => exact absurd hle (Nat.not_le.mpr hlt)

/-! ### Reading -/

/-- Reads take their bytes from the front of those `pending`. -/
structure Delivers (fails : IoError → Prop) (pending : τ → ByteArray) : Prop where
  of_ok : ∀ {n count : Nat} {chunk : Chunk n} {t t' : τ},
    Transport.fill n t = (.ok (count, chunk), t') →
      count = n ∧ chunk.size = n ∧ pending t = chunk.bytes ++ pending t'
  of_error : ∀ {n : Nat} {e : IoError} {t t' : τ},
    Transport.fill n t = (.error e, t') →
      fails e ∧ ∃ b, b.size < n ∧ pending t = b ++ pending t'

/-- No read fails that finds bytes enough. -/
structure DeliversAll (fails : IoError → Prop) (pending : τ → ByteArray) : Prop extends
    Delivers fails pending where
  lt_of_error : ∀ {n : Nat} {e : IoError} {t t' : τ},
    Transport.fill n t = (.error e, t') → (pending t).size < n

namespace Delivers

variable {pending : τ → ByteArray}

/-- A header that was read is at the front. -/
theorem header (h : Delivers fails pending) {header : Chunk headerSize} {t t' : τ}
    (hfill : Transport.fill headerSize t = (.ok (headerSize, header), t')) :
    pending t = encode32 (Channel.announced header) ++ pending t' := by
  obtain ⟨-, hsize, hpending⟩ := h.of_ok hfill
  rw [hpending, Channel.encode32_announced, Chunk.padded_of_size_eq hsize]

theorem receive (h : Delivers fails pending) (c : Channel τ) :
    ∃ b, Taken fails c.maxPayload c.receive.result b ∧
      pending c.transport = b ++ pending c.receive.channel.transport := by
  obtain ⟨calls, t, hchannel, hfollows, hreceives⟩ := c.receives
  rw [hchannel]
  generalize c.receive.result = result at hreceives
  cases hreceives with
  | headerFailed =>
    obtain _ | _ | ⟨hheader, ⟨⟩⟩ := hfollows
    obtain ⟨he, b, hlt, hpending⟩ := h.of_error hheader
    exact ⟨b, .part he (Frame.incomplete_of_size_lt hlt), hpending⟩
  | headerMiscounted hne =>
    obtain _ | _ | ⟨hheader, ⟨⟩⟩ := hfollows
    exact absurd (h.of_ok hheader).1 hne
  | refused hlt =>
    obtain _ | _ | ⟨hheader, ⟨⟩⟩ := hfollows
    exact ⟨_, .refused hlt, h.header hheader⟩
  | empty hzero =>
    obtain _ | _ | ⟨hheader, ⟨⟩⟩ := hfollows
    have hframe : Frame.encode Message.empty.bytes = encode32 _ ++ _ := Frame.encode_eq hzero.symm
    refine ⟨_, .whole (Nat.zero_le _), ?_⟩
    rw [h.header hheader, hframe]
    exact congrArg (· ++ _) ByteArray.append_empty.symm
  | bodyFailed hsize hpos hle =>
    obtain _ | _ | ⟨hheader, _ | _ | ⟨hbody, ⟨⟩⟩⟩ := hfollows
    obtain ⟨he, b, hlt, hpending⟩ := h.of_error hbody
    refine ⟨_, .part he (Frame.incomplete_of_body_lt (hsize ▸ hlt)), ?_⟩
    rw [h.header hheader, hpending, ByteArray.append_assoc]
  | bodyMiscounted hsize hpos hle hne =>
    obtain _ | _ | ⟨hheader, _ | _ | ⟨hbody, ⟨⟩⟩⟩ := hfollows
    exact absurd (h.of_ok hbody).1 hne
  | @received header size body hsize hpos hle =>
    obtain _ | _ | ⟨hheader, _ | _ | ⟨hbody, ⟨⟩⟩⟩ := hfollows
    obtain ⟨-, hfull, hpending⟩ := h.of_ok hbody
    have hbytes : (Message.ofPayload body.padded).bytes = body.bytes := by
      rw [Message.bytes_ofPayload, Chunk.padded_of_size_eq hfull]
    have hframe : Frame.encode body.bytes = encode32 _ ++ _ :=
      Frame.encode_eq (hfull.trans hsize.symm)
    refine ⟨_, .whole ?_, ?_⟩
    · rw [hbytes]
      exact Nat.le_trans (Nat.le_of_eq hfull) hle
    · rw [h.header hheader, hpending, hbytes, hframe, ByteArray.append_assoc]

end Delivers

namespace DeliversAll

variable {pending : τ → ByteArray}

/-- A read fails only if there is not a whole frame to read. -/
theorem incomplete_of_io (h : DeliversAll fails pending) {c : Channel τ} {e : IoError}
    (hio : c.receive.result = .error (.io e)) : Frame.Incomplete (pending c.transport) := by
  obtain ⟨calls, t, -, hfollows, hreceives⟩ := c.receives
  rw [hio] at hreceives
  cases hreceives with
  | headerFailed =>
    obtain _ | _ | ⟨hheader, -⟩ := hfollows
    exact Frame.incomplete_of_size_lt (h.lt_of_error hheader)
  | bodyFailed hsize =>
    obtain _ | _ | ⟨hheader, _ | _ | ⟨hbody, -⟩⟩ := hfollows
    rw [h.header hheader]
    exact Frame.incomplete_of_body_lt (hsize ▸ h.lt_of_error hbody)

/-- A payload that is at the front and is let pass is received. -/
theorem receive (h : DeliversAll fails pending) (c : Channel τ) {payload rest : ByteArray}
    (hle : payload.size ≤ c.maxPayload.toNat)
    (hpending : pending c.transport = Frame.encode payload ++ rest) :
    ∃ m, c.receive.result = .ok m ∧ m.bytes = payload ∧
      pending c.receive.channel.transport = rest := by
  have hfits := Frame.fits_of_le hle
  obtain ⟨b, htaken, hb⟩ := h.toDelivers.receive c
  generalize hresult : c.receive.result = result at htaken
  cases htaken with
  | @whole m hm =>
    rw [hpending] at hb
    obtain ⟨hbytes, hrest⟩ := Frame.encode_append_inj hfits (Frame.fits_of_le hm) hb
    exact ⟨m, rfl, hbytes.symm, hrest.symm⟩
  | part => exact absurd hpending (h.incomplete_of_io hresult payload rest hfits)
  | refused hlt =>
    rw [hpending] at hb
    obtain ⟨rfl, -⟩ := Frame.encode_append_eq_iff.mp hb
    rw [Frame.toNat_length hfits] at hlt
    exact absurd hle (Nat.not_le.mpr hlt)

end DeliversAll

/-! ### Both ways -/

/-- A transport keeps bytes in order both ways, and the two ways do not touch. -/
structure Duplex (readFails writeFails : IoError → Prop) (pending written : τ → ByteArray) :
    Prop where
  delivers : Delivers readFails pending
  accepts : Accepts writeFails written
  written_fill : ∀ {n : Nat} {answer : Except IoError (Nat × Chunk n)} {t t' : τ},
    Transport.fill n t = (answer, t') → written t' = written t
  pending_writeAll : ∀ {bufs : List ByteArray} {answer : Except IoError Nat} {t t' : τ},
    Transport.writeAll bufs t = (answer, t') → pending t' = pending t

namespace Duplex

variable {readFails writeFails : IoError → Prop} {pending written : τ → ByteArray}

/-- A send adds its bytes to the written ones, and changes nothing else. -/
theorem send (h : Duplex readFails writeFails pending written) (c : Channel τ)
    (payload : ByteArray) : ∃ b, Sent writeFails c.maxPayload payload (c.send payload).result b ∧
      (c.send payload).channel.maxPayload = c.maxPayload ∧
      pending (c.send payload).channel.transport = pending c.transport ∧
      written (c.send payload).channel.transport = written c.transport ++ b := by
  obtain ⟨b, hsent, hwritten⟩ := h.accepts.send c payload
  exact ⟨b, hsent, c.maxPayload_send payload, c.send_keeps h.pending_writeAll payload, hwritten⟩

/-- A receive takes its bytes from the pending ones, and changes nothing else. -/
theorem receive (h : Duplex readFails writeFails pending written) (c : Channel τ) :
    ∃ b, Taken readFails c.maxPayload c.receive.result b ∧
      c.receive.channel.maxPayload = c.maxPayload ∧
      pending c.transport = b ++ pending c.receive.channel.transport ∧
      written c.receive.channel.transport = written c.transport := by
  obtain ⟨b, htaken, hpending⟩ := h.delivers.receive c
  exact ⟨b, htaken, c.maxPayload_receive, hpending, c.receive_keeps h.written_fill⟩

/-- An exchange adds its request to the written bytes and takes its response from the pending
ones, and changes nothing else. -/
theorem exchange (h : Duplex readFails writeFails pending written) (c : Channel τ)
    (request : ByteArray) : ∃ taken sent,
      Exchanged readFails writeFails c.maxPayload request (c.exchange request).result taken sent ∧
      (c.exchange request).channel.maxPayload = c.maxPayload ∧
      pending c.transport = taken ++ pending (c.exchange request).channel.transport ∧
      written (c.exchange request).channel.transport = written c.transport ++ sent := by
  obtain ⟨b, hsent, hmax, hpending, hwritten⟩ := h.send c request
  cases hresult : (c.send request).result with
  | error e =>
    obtain ⟨hexchange, hchannel⟩ := Channel.exchange_of_error hresult
    rw [hresult] at hsent
    rw [hexchange, hchannel, hpending]
    exact ⟨_, b, .unsent hsent, hmax, ByteArray.empty_append.symm, hwritten⟩
  | ok count =>
    obtain ⟨hexchange, hchannel⟩ := Channel.exchange_of_ok hresult
    rw [hresult] at hsent
    obtain ⟨⟩ := hsent
    rw [hexchange, hchannel]
    generalize (c.send request).channel = c' at hmax hpending hwritten
    obtain ⟨b', htaken, hmax', hpending', hwritten'⟩ := h.receive c'
    rw [hmax] at htaken hmax'
    rw [hpending] at hpending'
    rw [hwritten] at hwritten'
    refine ⟨b', _, ?_, hmax', hpending', hwritten'⟩
    generalize c'.receive.result = result at htaken
    cases htaken with
    | whole hle => exact .whole hle
    | part he hb => exact .unanswered (.part he hb)
    | refused hlt => exact .unanswered (.refused hlt)

end Duplex

end ClassRelay
