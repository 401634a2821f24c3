import ClassRelay.Channel.Basic

/-!
# Frames

The written form of a payload, `Frame.encode`: four bytes that tell its size, and the payload.
Written one behind the other, `Frame.encodeAll`, frames need no marks between them: the size in
front says where each ends (`Frame.encode_append_inj`). So the frames that bytes start with are
determined by the bytes (`Frame.exists_of_encodeAll_append`), and two lists of payloads are never
written alike (`Frame.encodeAll_inj`).

A payload of four gigabytes or more fits no header, so all this is about payloads that `Fits`.
-/

namespace ClassRelay

open BigEndian

namespace Frame

variable {p q x y : ByteArray} {ps qs : List ByteArray}

/-- The number that a header holds for a payload. -/
def length (p : ByteArray) : UInt32 :=
  UInt32.ofNat p.size

/-- The header and the payload, as they are handed to a transport. -/
def buffers (p : ByteArray) : List ByteArray :=
  [encode32 (length p), p]

/-- The bytes of a frame. -/
def encode (p : ByteArray) : ByteArray :=
  encode32 (length p) ++ p

/-- The bytes of frames, one behind the other. -/
def encodeAll (ps : List ByteArray) : ByteArray :=
  Buffers.join (ps.map encode)

/-- The header can hold the size of the payload. -/
def Fits (p : ByteArray) : Prop :=
  p.size < UInt32.size

@[simp] theorem size_encode (p : ByteArray) : (encode p).size = headerSize + p.size := by
  rw [encode, ByteArray.size_append]
  rfl

@[simp] theorem join_buffers (p : ByteArray) : Buffers.join (buffers p) = encode p := by
  simp [buffers, Buffers.join, encode]

@[simp] theorem encodeAll_nil : encodeAll [] = ByteArray.empty := rfl

@[simp] theorem encodeAll_cons (p : ByteArray) (ps : List ByteArray) :
    encodeAll (p :: ps) = encode p ++ encodeAll ps := rfl

@[simp] theorem encodeAll_singleton (p : ByteArray) : encodeAll [p] = encode p :=
  ByteArray.append_empty

@[simp] theorem encodeAll_append (ps qs : List ByteArray) :
    encodeAll (ps ++ qs) = encodeAll ps ++ encodeAll qs := by
  rw [encodeAll, List.map_append, Buffers.join_append]
  rfl

/-- What a channel lets pass has a header. -/
theorem fits_of_le {max : UInt32} (h : p.size ≤ max.toNat) : Fits p :=
  Nat.lt_of_le_of_lt h max.toNat_lt

theorem toNat_length (h : Fits p) : (length p).toNat = p.size := by
  rw [length, UInt32.toNat_ofNat']
  exact Nat.mod_eq_of_lt h

/-- A header that stands in front of a payload of its size is the header of that payload. -/
theorem length_eq {n : UInt32} (h : p.size = n.toNat) : length p = n := by
  rw [length, h, UInt32.ofNat_toNat]

/-- A header and a payload of the size that it holds are a frame. -/
theorem encode_eq {n : UInt32} (h : p.size = n.toNat) : encode p = encode32 n ++ p := by
  rw [encode, length_eq h]

/-! ### Reading frames back -/

/-- What starts with a frame starts with its header and no other. -/
theorem encode_append_eq_iff {n : UInt32} :
    encode p ++ x = encode32 n ++ y ↔ length p = n ∧ p ++ x = y := by
  have hheader : (encode32 (length p)).size = (encode32 n).size := rfl
  rw [encode, ByteArray.append_assoc,
    ByteArray.append_eq_append_iff_of_size_eq_left hheader, encode32_inj]

/-- **Frames end where they say.** What starts with a frame starts with no other, and the rest
is the same. -/
theorem encode_append_inj (hp : Fits p) (hq : Fits q) (h : encode p ++ x = encode q ++ y) :
    p = q ∧ x = y := by
  obtain ⟨hlength, hrest⟩ := encode_append_eq_iff.mp (h.trans ByteArray.append_assoc)
  have hsize : p.size = q.size := by rw [← toNat_length hp, ← toNat_length hq, hlength]
  exact (ByteArray.append_eq_append_iff_of_size_eq_left hsize).mp hrest

/-- A frame is never empty. -/
theorem encode_append_ne_empty : encode p ++ x ≠ ByteArray.empty := by
  intro h
  have hsize := congrArg ByteArray.size h
  rw [ByteArray.size_append, size_encode, ByteArray.size_empty, headerSize] at hsize
  omega

/-- If frames start with frames, then their payloads start with those payloads, and what is left
are the frames of the others. -/
theorem exists_of_encodeAll_append (hps : ∀ p ∈ ps, Fits p) (hqs : ∀ q ∈ qs, Fits q)
    (h : encodeAll ps ++ x = encodeAll qs) : ∃ rs, qs = ps ++ rs ∧ x = encodeAll rs := by
  induction ps generalizing qs with
  | nil =>
    rw [encodeAll_nil, ByteArray.empty_append] at h
    exact ⟨qs, rfl, h⟩
  | cons p ps ih =>
    rw [List.forall_mem_cons] at hps
    rw [encodeAll_cons, ByteArray.append_assoc] at h
    cases qs with
    | nil => exact absurd h encode_append_ne_empty
    | cons q qs =>
      rw [List.forall_mem_cons] at hqs
      rw [encodeAll_cons] at h
      obtain ⟨rfl, hrest⟩ := encode_append_inj hps.1 hqs.1 h
      obtain ⟨rs, rfl, hx⟩ := ih hps.2 hqs.2 hrest
      exact ⟨rs, rfl, hx⟩

/-- Different payloads are written differently, however many there are. -/
theorem encodeAll_inj (hps : ∀ p ∈ ps, Fits p) (hqs : ∀ q ∈ qs, Fits q)
    (h : encodeAll ps = encodeAll qs) : ps = qs := by
  rw [← ByteArray.append_empty (b := encodeAll ps)] at h
  obtain ⟨rs, rfl, hrs⟩ := exists_of_encodeAll_append hps hqs h
  cases rs with
  | nil => rw [List.append_nil]
  | cons r rs => exact absurd hrs.symm encode_append_ne_empty

/-! ### Less than a frame -/

/-- The bytes do not start with a whole frame. -/
def Incomplete (b : ByteArray) : Prop :=
  ∀ p rest, Fits p → b ≠ encode p ++ rest

theorem incomplete_of_size_lt (h : x.size < headerSize) : Incomplete x := by
  rintro p rest - rfl
  rw [ByteArray.size_append, size_encode] at h
  omega

/-- A header and less than it announces are no frame. -/
theorem incomplete_of_body_lt {n : UInt32} (h : x.size < n.toNat) :
    Incomplete (encode32 n ++ x) := by
  intro p rest hp heq
  obtain ⟨rfl, rfl⟩ := encode_append_eq_iff.mp heq.symm
  rw [toNat_length hp, ByteArray.size_append] at h
  omega

/-- Frames that start with frames and less than a frame are those frames. -/
theorem eq_of_encodeAll_append (hps : ∀ p ∈ ps, Fits p) (hqs : ∀ q ∈ qs, Fits q)
    (h : encodeAll ps ++ x = encodeAll qs) (hx : Incomplete x) : ps = qs := by
  obtain ⟨rs, rfl, rfl⟩ := exists_of_encodeAll_append hps hqs h
  cases rs with
  | nil => rw [List.append_nil]
  | cons r rs =>
    have hr : Fits r := hqs r (List.mem_append_right _ List.mem_cons_self)
    exact absurd (encodeAll_cons r rs) (hx r _ hr)

end Frame

namespace Channel

/-- The bytes of a header are the written form of the size that it announces. -/
theorem encode32_announced (header : Chunk headerSize) :
    encode32 (announced header) = header.padded := by
  have hpadded : header.padded.size = 4 := header.size_padded
  rw [announced, encode32_decode32]
  calc _ = header.padded.extract 0 (0 + 4) := (ByteArray.extract_add_four (by omega)).symm
    _ = header.padded := by rw [Nat.zero_add, ← hpadded, ByteArray.extract_zero_size]

end Channel

end ClassRelay
