import ClassRelay.Proofs.Bytes.Segment
import ClassRelay.Proofs.Channel.Queue

/-!
# The views of a message

A message that is not empty is stored with a zero byte behind its payload. Its views are taken from
what is stored, each in its own way: by a cut, by a size that is one less, by dropping the last
byte, and by a search for a zero. They all show **the payload that was received**
(`Message.Shows`), and two messages are equal exactly when their payloads are. In particular
payloads of zeros only, or with zeros at their end, are told apart, from each other and from none.
-/

namespace ClassRelay

variable {p q text other : ByteArray}

/-! ### Texts in front of a zero -/

/-- None of the bytes is zero. -/
def ZeroFree (b : ByteArray) : Prop :=
  ∀ i (hi : i < b.size), b[i] ≠ 0

/-- `text` is the longest front of `p` without a zero byte. -/
structure IsText (p text : ByteArray) : Prop where
  holdsAt : HoldsAt p 0 text
  zeroFree : ZeroFree text
  size_le : ∀ other, HoldsAt p 0 other → ZeroFree other → other.size ≤ text.size

theorem IsText.unique (h : IsText p text) (h' : IsText p other) : text = other :=
  h.holdsAt.eq_of_size_eq h'.holdsAt
    (Nat.le_antisymm (h'.size_le _ h.holdsAt h.zeroFree) (h.size_le _ h'.holdsAt h'.zeroFree))

/-- Bytes without a zero are a text as a whole. -/
theorem ZeroFree.isText (h : ZeroFree p) : IsText p p where
  holdsAt := holdsAt_zero_iff.mpr ⟨ByteArray.empty, ByteArray.append_empty.symm⟩
  zeroFree := h
  size_le other hother _ := by
    have hle := hother.le_size
    omega

/-- The text ends where the first zero stands, or at the end. -/
theorem isText_extract {stop : Nat} (hle : stop ≤ p.size) (hfree : ∀ i (hi : i < stop), p[i] ≠ 0)
    (hstop : ∀ h : stop < p.size, p[stop] = 0) : IsText p (p.extract 0 stop) := by
  have hsize : (p.extract 0 stop).size = stop := size_extract_zero hle
  refine ⟨holdsAt_extract (Nat.zero_le _) hle, fun i hi => ?_, fun other hother hother' => ?_⟩
  · rw [ByteArray.getElem_extract]
    simp only [Nat.zero_add]
    exact hfree i (hsize ▸ hi)
  · -- A longer front would hold the zero.
    rw [hsize]
    refine Nat.le_of_not_lt fun hlt => hother' stop hlt ?_
    obtain ⟨hle', hget⟩ := holdsAt_iff_getElem.mp hother
    rw [← hget stop hlt]
    simp only [Nat.zero_add]
    exact hstop (by omega)

namespace Message

/-! ### The message of a payload -/

theorem stored_ofPayload (h : p.size ≠ 0) : (ofPayload p).stored = p.push 0 := by
  rw [ofPayload, dif_neg h]

theorem ofPayload_empty : ofPayload ByteArray.empty = empty :=
  rfl

/-- Messages are told apart by their payloads. -/
theorem ofPayload_inj : ofPayload p = ofPayload q ↔ p = q := by
  refine ⟨fun h => ?_, congrArg ofPayload⟩
  rw [← bytes_ofPayload p, h, bytes_ofPayload]

theorem size_ofPayload (p : ByteArray) : (ofPayload p).size = p.size := by
  by_cases h : p.size = 0
  · rw [ByteArray.size_eq_zero_iff.mp h]
    rfl
  · rw [size, stored_ofPayload h, ByteArray.size_push, Nat.add_sub_cancel]

theorem release_ofPayload (p : ByteArray) : (ofPayload p).release = p := by
  by_cases h : p.size = 0
  · rw [ByteArray.size_eq_zero_iff.mp h]
    rfl
  · rw [release, stored_ofPayload h, ByteArray.data_push, Array.pop_push]

theorem isEmpty_ofPayload : (ofPayload p).isEmpty = true ↔ p = ByteArray.empty := by
  rw [isEmpty, decide_eq_true_iff, ← ByteArray.size_eq_zero_iff]
  by_cases h : p.size = 0
  · rw [ByteArray.size_eq_zero_iff.mp h]
    exact iff_of_true rfl rfl
  · rw [stored_ofPayload h, ByteArray.size_push]
    exact iff_of_false (Nat.succ_ne_zero _) h

theorem zeroTerminated?_empty : empty.zeroTerminated? = none := by
  simp [zeroTerminated?, empty]

/-- The search for a zero ends inside the payload or right behind it. -/
theorem zeroTerminated?_ofPayload (h : p.size ≠ 0) : (ofPayload p).zeroTerminated? =
    some (p.extract 0 ((p.data.findIdx? (· = 0)).getD p.size)) := by
  have hcut {stop : Nat} (hle : stop ≤ p.size) :
      (p.push 0).extract 0 stop = p.extract 0 stop := by
    refine ByteArray.ext ?_
    rw [ByteArray.data_extract, ByteArray.data_push, Array.extract_push,
      if_pos (show stop ≤ p.data.size from hle), ByteArray.data_extract]
  rw [zeroTerminated?, stored_ofPayload h, ByteArray.data_push, Array.findIdx?_push]
  cases hfind : p.data.findIdx? (· = 0) with
  | none => exact congrArg some (hcut (Nat.le_refl _))
  | some stop =>
    obtain ⟨hlt, -⟩ := Array.findIdx?_eq_some_iff_getElem.mp hfind
    exact congrArg some (hcut (Nat.le_of_lt hlt))

/-- A payload that is not empty is shown up to its first zero, and as a whole if it has none. -/
theorem exists_isText_ofPayload (h : p.size ≠ 0) :
    ∃ text, (ofPayload p).zeroTerminated? = some text ∧ IsText p text := by
  refine ⟨_, zeroTerminated?_ofPayload h, ?_⟩
  cases hfind : p.data.findIdx? (· = 0) with
  | none =>
    rw [Array.findIdx?_eq_none_iff] at hfind
    refine isText_extract (Nat.le_refl _) (fun i hi hzero => ?_)
      fun hlt => absurd hlt (Nat.lt_irrefl _)
    exact absurd hzero (of_decide_eq_false (hfind _ (Array.getElem_mem hi)))
  | some stop =>
    obtain ⟨hlt, hzero, hbefore⟩ := Array.findIdx?_eq_some_iff_getElem.mp hfind
    exact isText_extract (Nat.le_of_lt hlt) (fun i hi hz => hbefore i hi (decide_eq_true hz))
      fun _ => of_decide_eq_true hzero

theorem zeroTerminated?_ofPayload_eq_some_iff :
    (ofPayload p).zeroTerminated? = some text ↔ p ≠ ByteArray.empty ∧ IsText p text := by
  by_cases h : p.size = 0
  · rw [ByteArray.size_eq_zero_iff.mp h]
    exact iff_of_false (by simp [ofPayload_empty, zeroTerminated?_empty]) fun hno => hno.1 rfl
  · have hne : p ≠ ByteArray.empty := mt ByteArray.size_eq_zero_iff.mpr h
    obtain ⟨text', hsome, htext'⟩ := exists_isText_ofPayload h
    rw [hsome, Option.some.injEq]
    constructor
    · rintro rfl
      exact ⟨hne, htext'⟩
    · exact fun htext => htext'.unique htext.2

/-- The views of a message show the payload `p`. -/
structure Shows (m : Message) (p : ByteArray) : Prop where
  bytes_eq : m.bytes = p
  coe_eq : (m : ByteArray) = p
  release_eq : m.release = p
  size_eq : m.size = p.size
  isEmpty_iff : m.isEmpty = true ↔ p = ByteArray.empty
  eq_empty_iff : m = empty ↔ p = ByteArray.empty
  /-- There is a text unless there is no payload: the longest front of it without a zero byte. -/
  zeroTerminated?_eq_none_iff : m.zeroTerminated? = none ↔ p = ByteArray.empty
  zeroTerminated?_eq_some_iff : ∀ text,
    m.zeroTerminated? = some text ↔ p ≠ ByteArray.empty ∧ IsText p text
  /-- A payload without a zero is its own text. -/
  zeroTerminated?_of_zeroFree : p ≠ ByteArray.empty → ZeroFree p → m.zeroTerminated? = some p

theorem shows_ofPayload (p : ByteArray) : (ofPayload p).Shows p where
  bytes_eq := bytes_ofPayload p
  coe_eq := bytes_ofPayload p
  release_eq := release_ofPayload p
  size_eq := size_ofPayload p
  isEmpty_iff := isEmpty_ofPayload
  eq_empty_iff := by rw [← ofPayload_empty, ofPayload_inj]
  zeroTerminated?_eq_none_iff := by
    by_cases h : p.size = 0
    · rw [ByteArray.size_eq_zero_iff.mp h]
      exact iff_of_true zeroTerminated?_empty rfl
    · rw [zeroTerminated?_ofPayload h]
      exact iff_of_false (by simp) (mt ByteArray.size_eq_zero_iff.mpr h)
  zeroTerminated?_eq_some_iff _ := zeroTerminated?_ofPayload_eq_some_iff
  zeroTerminated?_of_zeroFree hne hfree :=
    zeroTerminated?_ofPayload_eq_some_iff.mpr ⟨hne, hfree.isText⟩

end Message

/-! ### Where messages come from -/

namespace Channel

variable {τ : Type} [Transport τ] {c : Channel τ} {m : Message}

/-- The body that a receive reads: none behind a header that announces none, and otherwise what the
transport leaves in a buffer of the announced size. -/
inductive ReadsBody (c : Channel τ) : ByteArray → Prop
  | empty {header : Chunk headerSize} {t : τ}
    (hheader : Transport.fill headerSize c.transport = (.ok (headerSize, header), t))
    (hzero : (announced header).toNat = 0) : ReadsBody c ByteArray.empty
  | whole {header : Chunk headerSize} {size : Nat} {body : Chunk size} {t t' : τ}
    (hheader : Transport.fill headerSize c.transport = (.ok (headerSize, header), t))
    (hsize : (announced header).toNat = size) (hpos : 0 < size)
    (hbody : Transport.fill size t = (.ok (size, body), t')) : ReadsBody c body.padded

/-- A receive reads one body at most. -/
theorem ReadsBody.unique (h : c.ReadsBody p) (h' : c.ReadsBody q) : p = q := by
  cases h with
  | empty hheader hzero =>
    cases h' with
    | empty => rfl
    | whole hheader' hsize hpos =>
      cases hheader.symm.trans hheader'
      omega
  | whole hheader hsize hpos hbody =>
    cases h' with
    | empty hheader' hzero =>
      cases hheader.symm.trans hheader'
      omega
    | whole hheader' hsize' hpos' hbody' =>
      cases hheader.symm.trans hheader'
      subst hsize hsize'
      cases hbody.symm.trans hbody'
      rfl

/-- Every receive that succeeds reads a body, and gives the message of it. -/
theorem exists_readsBody (h : c.receive.result = .ok m) :
    ∃ p, c.ReadsBody p ∧ m = Message.ofPayload p := by
  obtain ⟨calls, t, -, hfollows, hreceives⟩ := c.receives
  rw [h] at hreceives
  generalize hresult : (Except.ok m : Except ChannelError Message) = result at hreceives
  cases hreceives with
  | empty hzero =>
    cases hresult
    obtain _ | _ | ⟨hheader, -⟩ := hfollows
    exact ⟨_, .empty hheader hzero, rfl⟩
  | received hsize hpos hle =>
    cases hresult
    obtain _ | _ | ⟨hheader, _ | _ | ⟨hbody, -⟩⟩ := hfollows
    exact ⟨_, .whole hheader hsize hpos hbody, rfl⟩
  | _ => cases hresult

end Channel

/-- The message `m` was had with the payload `p`: as the empty one, where none was given, or by a
receive over any transport. -/
inductive Message.Had : Message → ByteArray → Prop
  | empty : Had .empty ByteArray.empty
  | default : Had default ByteArray.empty
  | received {τ : Type} [Transport τ] {c : Channel τ} {m : Message} {p : ByteArray}
    (hresult : c.receive.result = .ok m) (hbody : c.ReadsBody p) : Had m p

theorem Message.Had.eq_ofPayload {m : Message} (h : m.Had p) : m = .ofPayload p := by
  cases h with
  | empty => rfl
  | default => rfl
  | received hresult hbody =>
    obtain ⟨q, hbody', rfl⟩ := Channel.exists_readsBody hresult
    rw [hbody.unique hbody']

/-- **Messages show the payloads that were received.** Whatever a receive gives is had with the
body that it read; the views of a message show the payload that it is had with; and messages are
equal exactly if their payloads are. -/
theorem messages_show_payloads :
    (∀ {τ : Type} [Transport τ] (c : Channel τ) (m : Message), c.receive.result = .ok m →
      ∃ p, c.ReadsBody p ∧ m.Had p) ∧
    (∀ (m : Message) (p : ByteArray), m.Had p → m.Shows p) ∧
    ∀ (m m' : Message) (p q : ByteArray), m.Had p → m'.Had q → (m = m' ↔ p = q) := by
  refine ⟨fun c m hresult => ?_, fun m p h => ?_, fun m m' p q h h' => ?_⟩
  · obtain ⟨p, hbody, -⟩ := Channel.exists_readsBody hresult
    exact ⟨p, hbody, .received hresult hbody⟩
  · rw [h.eq_ofPayload]
    exact Message.shows_ofPayload p
  · rw [h.eq_ofPayload, h'.eq_ofPayload, Message.ofPayload_inj]

/-- A queue with the frame of two zero bytes in it. -/
def zerosFrame : Channel ByteQueue where
  transport := ⟨⟨#[0, 0, 0, 2, 0, 0]⟩⟩

theorem messages_show_payloads_zeros : ∃ m : Message,
    zerosFrame.receive.result = .ok m ∧ m.Had ⟨#[0, 0]⟩ ∧ m.Shows ⟨#[0, 0]⟩ ∧ m ≠ .empty ∧
      m.zeroTerminated? = some ByteArray.empty := by
  obtain ⟨hhad, hshows, heq⟩ := messages_show_payloads
  have hresult : zerosFrame.receive.result = .ok (.ofPayload ⟨#[0, 0]⟩) := rfl
  obtain ⟨p, -, hp⟩ := hhad zerosFrame _ hresult
  obtain rfl : (⟨#[0, 0]⟩ : ByteArray) = p :=
    (Message.bytes_ofPayload _).symm.trans (hshows _ _ hp).bytes_eq
  refine ⟨_, hresult, hp, hshows _ _ hp, fun hempty => ?_, ?_⟩
  · have hsame : (⟨#[0, 0]⟩ : ByteArray) = ByteArray.empty := (heq _ _ _ _ hp .empty).mp hempty
    cases hsame
  · decide +kernel

end ClassRelay
