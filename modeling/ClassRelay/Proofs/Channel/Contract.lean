import ClassRelay.Proofs.Channel.Outcomes

/-!
# The contract with a transport

A transport may report any count, leave any bytes in a buffer, and fail at any call. What a
channel does then is a function of the answers that it gets: which calls it makes, and which
result it gives (`Channel.keeps_contract`).

The calls are seen by watching the transport. `Watched τ` is any transport `τ`, together with a
record of the calls that it got and of its answers to them.
-/

namespace ClassRelay

open BigEndian

/-! ### Sending -/

/-- What a send owes to its caller and to its transport, given the calls that it made. -/
structure SendContract (max : UInt32) (payload : ByteArray) (calls : List Call)
    (result : Except ChannelError Nat) : Prop where
  /-- Payloads above the limit are refused, and no others. -/
  refused_iff : result = .error (.payloadTooLarge payload.size max) ↔ max.toNat < payload.size
  /-- For these, and for no others, nothing is written. -/
  silent_iff : calls = [] ↔ max.toNat < payload.size
  /-- The others are written at once, behind their size, and the answer decides. -/
  written : payload.size ≤ max.toNat → ∃ bufs answer, calls = [.write bufs answer] ∧
    (∃ size : UInt32, size.toNat = payload.size ∧ Buffers.join bufs = encode32 size ++ payload) ∧
    (∀ sent, result = .ok sent ↔
      sent = headerSize + payload.size ∧ answer = .ok (headerSize + payload.size)) ∧
    (∀ expected count, result = .error (.shortWrite expected count) ↔
      expected = headerSize + payload.size ∧ answer = .ok count ∧ count ≠ expected) ∧
    ∀ e, result = .error (.io e) ↔ answer = .error e

section

variable {max : UInt32} {payload : ByteArray} {calls : List Call}

/-- What is written of a payload is its size, as a header holds it, and the payload. -/
private theorem join_buffers_eq (hle : payload.size ≤ max.toNat) : ∃ size : UInt32,
    size.toNat = payload.size ∧ Buffers.join (Frame.buffers payload) = encode32 size ++ payload :=
  ⟨Frame.length payload, Frame.toNat_length (Frame.fits_of_le hle), Frame.join_buffers payload⟩

theorem Sends.contract {result : Except ChannelError Nat} (h : Sends max payload calls result) :
    SendContract max payload calls result := by
  cases h with
  | refused hlt =>
    refine ⟨by simp [hlt], by simp [hlt], fun hle => ?_⟩
    exact absurd hlt (Nat.not_lt.mpr hle)
  | failed hle =>
    refine ⟨by simp [hle], by simp [hle], fun _ => ⟨_, _, rfl, join_buffers_eq hle, ?_⟩⟩
    simp
  | @miscounted count hle hne =>
    refine ⟨by simp [hle], by simp [hle],
      fun _ => ⟨_, _, rfl, join_buffers_eq hle, ?_, fun expected count' => ?_, ?_⟩⟩
    · simp [hne]
    · simp only [Except.error.injEq, ChannelError.shortWrite.injEq, Except.ok.injEq]
      constructor
      · rintro ⟨rfl, rfl⟩
        exact ⟨rfl, rfl, hne⟩
      · rintro ⟨rfl, rfl, -⟩
        exact ⟨rfl, rfl⟩
    · simp
  | sent hle =>
    refine ⟨by simp [hle], by simp [hle],
      fun _ => ⟨_, _, rfl, join_buffers_eq hle, ?_, fun expected count => ?_, ?_⟩⟩
    · simp [eq_comm]
    · -- The count is the expected one, so no count can be a wrong one.
      simp only [reduceCtorEq, Except.ok.injEq, false_iff]
      rintro ⟨rfl, rfl, hne⟩
      exact hne rfl
    · simp

end

/-! ### Receiving -/

/-- The answer to the first read is a whole header, which holds the number `n`. -/
def Announces (first : Except IoError (Nat × Chunk headerSize)) (n : UInt32) : Prop :=
  ∃ header, first = .ok (headerSize, header) ∧ header.padded = encode32 n

section Announces

variable {header : Chunk headerSize} {n : UInt32}

@[simp] theorem announces_ok_iff :
    Announces (.ok (headerSize, header)) n ↔ Channel.announced header = n := by
  rw [Announces, ← encode32_inj, Channel.encode32_announced]
  constructor
  · rintro ⟨_, ⟨⟩, h⟩
    exact h
  · intro h
    exact ⟨header, rfl, h⟩

@[simp] theorem not_announces_error {e : IoError} : ¬ Announces (.error e) n := by
  rintro ⟨header, h, -⟩
  cases h

theorem not_announces_of_ne {count : Nat} (hne : count ≠ headerSize) :
    ¬ Announces (.ok (count, header)) n := by
  rintro ⟨header', h, -⟩
  cases h
  exact hne rfl

end Announces

/-- What a receive owes to its caller and to its transport, given the answer to its first call,
which reads a header, and the calls behind it. -/
structure ReceiveContract (max : UInt32) (first : Except IoError (Nat × Chunk headerSize))
    (rest : List Call) (result : Except ChannelError Message) : Prop where
  /-- A payload that is announced, is not empty and is let pass is read, all at once. -/
  body_read : ∀ n, Announces first n → 0 < n.toNat → n.toNat ≤ max.toNat →
    ∃ answer, rest = [.read n.toNat answer]
  /-- Otherwise nothing more is read. -/
  nothing_read : (∀ n, Announces first n → n.toNat = 0 ∨ max.toNat < n.toNat) → rest = []
  /-- An error of either read is passed on. -/
  io_iff : ∀ e, result = .error (.io e) ↔ first = .error e ∨ ∃ n, rest = [.read n (.error e)]
  /-- So is a count of either read that is not the one that was asked for. -/
  shortRead_iff : ∀ expected count, result = .error (.shortRead expected count) ↔
    (expected = headerSize ∧ count ≠ headerSize ∧ ∃ header, first = .ok (count, header)) ∨
      (count ≠ expected ∧ ∃ body, rest = [.read expected (.ok (count, body))])
  /-- An announced payload above the limit is refused, and nothing else is. -/
  payloadTooLarge_iff : ∀ size limit, result = .error (.payloadTooLarge size limit) ↔
    limit = max ∧ max.toNat < size ∧ ∃ n, Announces first n ∧ n.toNat = size
  /-- A message is what the second read left in its buffer, or is empty. -/
  ok_iff : ∀ m, result = .ok m ↔ (m = .empty ∧ ∃ n, Announces first n ∧ n.toNat = 0) ∨
    ∃ n body, rest = [.read n (.ok (n, body))] ∧ m = .ofPayload body.padded

section

variable {max : UInt32} {first : Except IoError (Nat × Chunk headerSize)} {rest : List Call}
  {result : Except ChannelError Message}

/-- Every receive starts with a header. -/
theorem Receives.exists_cons {calls : List Call} (h : Receives max calls result) :
    ∃ first rest, calls = .read headerSize first :: rest := by
  cases h
  all_goals exact ⟨_, _, rfl⟩

theorem Receives.contract (h : Receives max (.read headerSize first :: rest) result) :
    ReceiveContract max first rest result where
  body_read := by
    intro n hn hpos hle
    cases h with
    | headerFailed => exact absurd hn not_announces_error
    | headerMiscounted hne => exact absurd hn (not_announces_of_ne hne)
    | refused hlt =>
      obtain rfl := announces_ok_iff.mp hn
      exact absurd hlt (Nat.not_lt.mpr hle)
    | empty hzero =>
      obtain rfl := announces_ok_iff.mp hn
      exact absurd hzero (Nat.ne_of_gt hpos)
    | bodyFailed hsize | bodyMiscounted hsize | received hsize =>
      obtain rfl := announces_ok_iff.mp hn
      subst hsize
      exact ⟨_, rfl⟩
  nothing_read := by
    intro hfirst
    cases h with
    | headerFailed | headerMiscounted | refused | empty => rfl
    | bodyFailed hsize hpos hle | bodyMiscounted hsize hpos hle | received hsize hpos hle =>
      have h := hfirst _ (announces_ok_iff.mpr rfl)
      omega
  io_iff := by
    intro e
    constructor
    · rintro rfl
      cases h with
      | headerFailed => exact .inl rfl
      | bodyFailed => exact .inr ⟨_, rfl⟩
    · rintro (rfl | ⟨n, rfl⟩)
      all_goals
        cases h
        rfl
  shortRead_iff := by
    intro expected count
    constructor
    · rintro rfl
      cases h with
      | headerMiscounted hne => exact .inl ⟨rfl, hne, _, rfl⟩
      | bodyMiscounted hsize hpos hle hne => exact .inr ⟨hne, _, rfl⟩
    · rintro (⟨rfl, hne, header, rfl⟩ | ⟨hne, body, rfl⟩)
      · cases h with
        | headerMiscounted => rfl
        | _ => exact absurd rfl hne
      · cases h with
        | bodyMiscounted => rfl
        | received => exact absurd rfl hne
  payloadTooLarge_iff := by
    intro size limit
    constructor
    · rintro rfl
      cases h with
      | refused hlt => exact ⟨rfl, hlt, _, announces_ok_iff.mpr rfl, rfl⟩
    · rintro ⟨rfl, hlt, n, hn, rfl⟩
      cases h with
      | headerFailed => exact absurd hn not_announces_error
      | headerMiscounted hne => exact absurd hn (not_announces_of_ne hne)
      | refused =>
        obtain rfl := announces_ok_iff.mp hn
        rfl
      | empty hzero =>
        obtain rfl := announces_ok_iff.mp hn
        omega
      | bodyFailed hsize hpos hle | bodyMiscounted hsize hpos hle | received hsize hpos hle =>
        obtain rfl := announces_ok_iff.mp hn
        omega
  ok_iff := by
    intro m
    constructor
    · rintro rfl
      cases h with
      | empty hzero => exact .inl ⟨rfl, _, announces_ok_iff.mpr rfl, hzero⟩
      | received => exact .inr ⟨_, _, rfl, rfl⟩
    · rintro (⟨rfl, n, hn, hzero⟩ | ⟨n, body, rfl, rfl⟩)
      · cases h with
        | headerFailed => exact absurd hn not_announces_error
        | headerMiscounted hne => exact absurd hn (not_announces_of_ne hne)
        | refused hlt =>
          obtain rfl := announces_ok_iff.mp hn
          omega
        | empty => rfl
        | bodyFailed hsize hpos | bodyMiscounted hsize hpos | received hsize hpos =>
          obtain rfl := announces_ok_iff.mp hn
          omega
      · cases h with
        | bodyMiscounted hsize hpos hle hne => exact absurd rfl hne
        | received => rfl

end

/-! ### Watching a transport -/

/-- A transport, and the calls that it got, oldest first. -/
structure Watched (τ : Type) where
  transport : τ
  calls : List Call

variable {τ : Type} [Transport τ]

/-- Watching passes every call on, and its answer back. -/
instance : Transport (Watched τ) where
  writeAll bufs t :=
    let (answer, transport) := Transport.writeAll bufs t.transport
    (answer, ⟨transport, t.calls ++ [.write bufs answer]⟩)
  fill n t :=
    let (answer, transport) := Transport.fill n t.transport
    (answer, ⟨transport, t.calls ++ [.read n answer]⟩)

/-- The record of a watched transport grows by the calls that it gets. -/
theorem Follows.calls_eq {calls : List Call} {t t' : Watched τ} (h : Follows calls t t') :
    t'.calls = t.calls ++ calls := by
  induction h with
  | nil => rw [List.append_nil]
  | write h _ ih =>
    cases h
    rw [ih, List.append_assoc, List.singleton_append]
  | read h _ ih =>
    cases h
    rw [ih, List.append_assoc, List.singleton_append]

/-- **The contract.** Whatever the transport answers, a send and a receive make the calls that
they owe, and give the result that the answers call for; an exchange is a send, and a receive
behind it if something was sent. The limit stays as it was. -/
theorem Channel.keeps_contract (c : Channel (Watched τ)) (payload : ByteArray) :
    (∃ calls t, (c.send payload).channel = { c with transport := t } ∧
      t.calls = c.transport.calls ++ calls ∧
      SendContract c.maxPayload payload calls (c.send payload).result) ∧
    (∃ first rest t, c.receive.channel = { c with transport := t } ∧
      t.calls = c.transport.calls ++ .read headerSize first :: rest ∧
      ReceiveContract c.maxPayload first rest c.receive.result) ∧
    (∀ e, (c.send payload).result = .error e →
      (c.exchange payload).result = .error e ∧
      (c.exchange payload).channel = (c.send payload).channel) ∧
    (∀ count, (c.send payload).result = .ok count →
      (c.exchange payload).result = (c.send payload).channel.receive.result ∧
      (c.exchange payload).channel = (c.send payload).channel.receive.channel) := by
  refine ⟨?_, ?_, fun _ => exchange_of_error, fun _ => exchange_of_ok⟩
  · obtain ⟨calls, t, hchannel, hfollows, hsends⟩ := c.sends payload
    exact ⟨calls, t, hchannel, hfollows.calls_eq, hsends.contract⟩
  · obtain ⟨calls, t, hchannel, hfollows, hreceives⟩ := c.receives
    obtain ⟨first, rest, rfl⟩ := hreceives.exists_cons
    exact ⟨first, rest, t, hchannel, hfollows.calls_eq, hreceives.contract⟩

end ClassRelay
