import ClassRelay.ClassFile.Pool.Extent
import ClassRelay.Proofs.ClassFile.Reads

/-!
# The written form of entries

Three views of an entry have to agree: what is written for it (`Entry.encode`), what is read at
an offset (`Entry.decode`), and how far a scan steps over it (`Extent.read`).

* **Reading is inverse to writing**: an entry is read at an offset exactly when its written form
  stands there (`Entry.decode_eq_ok_iff`). So a written form belongs to one entry
  (`Entry.encode_unique`), and none is the start of another.
* **Stepping agrees with writing**: a scan steps over exactly the written form
  (`Entry.read_extent`), and whatever it steps over inside the bytes is one
  (`Entry.exists_of_read_extent`).
* **Shapes**: the bytes behind a tag are the fields of some entry exactly when they have the
  size that the tag asks for (`Tag.fits_iff`).
-/

namespace ClassRelay.ClassFile

open BigEndian

variable {b s : ByteArray} {offset : Nat} {policy : UnknownTagPolicy}

/-! ### Bytes that are words -/

private theorem eq_of_holdsAt_zero {t : ByteArray} (h : HoldsAt s 0 t) (hsize : s.size = t.size) :
    s = t := by
  rw [← h.extract_eq, Nat.zero_add, ← hsize, ByteArray.extract_zero_size]

theorem exists_eq_push (h : s.size = 1) : ∃ v, s = ByteArray.empty.push v :=
  ⟨_, eq_of_holdsAt_zero (readU8_eq_ok_iff.mp (readU8_of_le (by omega))) h⟩

theorem exists_eq_encode16 (h : s.size = 2) : ∃ v, s = encode16 v :=
  ⟨_, eq_of_holdsAt_zero (readU16_eq_ok_iff.mp (readU16_of_le (by omega))) h⟩

theorem exists_eq_encode32 (h : s.size = 4) : ∃ v, s = encode32 v :=
  ⟨_, eq_of_holdsAt_zero (readU32_eq_ok_iff.mp (readU32_of_le (by omega))) h⟩

/-- Bytes of a known size are two parts of known sizes. -/
private theorem exists_eq_append {m n : Nat} (h : s.size = m + n) :
    ∃ t u : ByteArray, s = t ++ u ∧ t.size = m ∧ u.size = n := by
  refine ⟨s.extract 0 m, s.extract m s.size, ?_, ?_, ?_⟩
  · rw [← ByteArray.extract_eq_extract_append_extract m (by omega) (by omega),
      ByteArray.extract_zero_size]
  · rw [ByteArray.size_extract]
    omega
  · rw [ByteArray.size_extract]
    omega

namespace Entry

/-- An entry that its written form can hold: the size of a text has sixteen bits, and a tag byte
that counts as unknown is the byte of no tag. -/
def Representable : Entry → Prop
  | utf8 bytes => bytes.size < 65536
  | unknown number _ => Tag.ofNumber? number = none
  | _ => True

instance : (e : Entry) → Decidable e.Representable
  | utf8 bytes => inferInstanceAs (Decidable (bytes.size < 65536))
  | unknown number _ => inferInstanceAs (Decidable (Tag.ofNumber? number = none))
  | classRef _ | stringRef _ | methodType _ | methodHandle _ _ | moduleRef _ | packageRef _
  | wide _ _ _ | word _ _ => inferInstanceAs (Decidable True)

@[simp] theorem size_encode (e : Entry) : e.encode.size = 1 + e.payload.size := by
  rw [encode, ByteArray.size_append]
  rfl

theorem size_payload_utf8 (text : ByteArray) : (utf8 text).payload.size = 2 + text.size := by
  rw [payload, ByteArray.size_append, size_encode16]

/-- The tag byte of an entry is read as the tag of that entry, if it has one. -/
theorem ofNumber?_number {e : Entry} (h : e.Representable) : Tag.ofNumber? e.number = e.tag? := by
  cases e with
  | unknown number bits => exact h
  | wide tag high low => exact Tag.ofNumber?_number (.wide tag)
  | word tag bits => exact Tag.ofNumber?_number (.word tag)
  | _ => rfl

/-- The slots that an entry takes are told by its tag. -/
theorem slots_of_tag?_eq_some {e : Entry} {tag : Tag} (h : e.tag? = some tag) :
    e.slots = if tag.isWide then 2 else 1 := by
  cases e <;> cases h <;> rfl

/-- The written form of a pair of slot numbers is one behind the other. -/
theorem payload_pair (tag : WordTag) (first second : UInt16) :
    (pair tag first second).payload = encode16 first ++ encode16 second := by
  have hfirst := first.toNat_lt
  have hsecond := second.toNat_lt
  refine encode32_eq_append ?_
  rw [UInt32.toNat_ofNat']
  omega

/-! ### Reading entries -/

theorem readText_eq_ok_iff {text : ByteArray} : readText b offset = .ok text ↔
    (utf8 text).Representable ∧ HoldsAt b offset (utf8 text).payload := by
  simp only [readText, bind_eq_ok_iff, readU16_eq_ok_iff, readBytes_eq_ok_iff_holdsAt,
    payload, holdsAt_append, size_encode16, Representable]
  constructor
  · rintro ⟨size, hsize, hlen, htext⟩
    have hlt := size.toNat_lt
    rw [hlen, UInt16.ofNat_toNat]
    exact ⟨by omega, hsize, htext⟩
  · rintro ⟨hlt, hsize, htext⟩
    exact ⟨_, hsize, by rw [UInt16.toNat_ofNat']; omega, htext⟩

/-- The fields behind a tag are read exactly when they stand there. -/
theorem decodePayload_eq_ok_iff {tag : Tag} {e : Entry} :
    decodePayload tag b offset = .ok e ↔
      e.tag? = some tag ∧ e.Representable ∧ HoldsAt b offset e.payload := by
  constructor
  · intro h
    cases tag with
    | utf8 =>
      obtain ⟨text, htext, rfl⟩ := map_eq_ok_iff.mp h
      exact ⟨rfl, readText_eq_ok_iff.mp htext⟩
    | classRef | stringRef | methodType | moduleRef | packageRef =>
      obtain ⟨index, hindex, rfl⟩ := map_eq_ok_iff.mp h
      exact ⟨rfl, trivial, readU16_eq_ok_iff.mp hindex⟩
    | methodHandle =>
      obtain ⟨kind, hkind, h⟩ := bind_eq_ok_iff.mp h
      obtain ⟨index, hindex, h⟩ := bind_eq_ok_iff.mp h
      cases h
      exact ⟨rfl, trivial,
        holdsAt_append.mpr ⟨readU8_eq_ok_iff.mp hkind, readU16_eq_ok_iff.mp hindex⟩⟩
    | wide tag =>
      obtain ⟨high, hhigh, h⟩ := bind_eq_ok_iff.mp h
      obtain ⟨low, hlow, h⟩ := bind_eq_ok_iff.mp h
      cases h
      exact ⟨rfl, trivial,
        holdsAt_append.mpr ⟨readU32_eq_ok_iff.mp hhigh, readU32_eq_ok_iff.mp hlow⟩⟩
    | word tag =>
      obtain ⟨bits, hbits, rfl⟩ := map_eq_ok_iff.mp h
      exact ⟨rfl, trivial, readU32_eq_ok_iff.mp hbits⟩
  · rintro ⟨htag, hrep, hpayload⟩
    cases e with
    | utf8 text =>
      cases htag
      exact map_eq_ok_iff.mpr ⟨text, readText_eq_ok_iff.mpr ⟨hrep, hpayload⟩, rfl⟩
    | classRef index | stringRef index | methodType index | moduleRef index | packageRef index =>
      cases htag
      exact map_eq_ok_iff.mpr ⟨index, readU16_eq_ok_iff.mpr hpayload, rfl⟩
    | methodHandle kind index =>
      cases htag
      obtain ⟨hkind, hindex⟩ := holdsAt_append.mp hpayload
      exact bind_eq_ok_iff.mpr ⟨kind, readU8_eq_ok_iff.mpr hkind,
        bind_eq_ok_iff.mpr ⟨index, readU16_eq_ok_iff.mpr hindex, rfl⟩⟩
    | wide tag high low =>
      cases htag
      obtain ⟨hhigh, hlow⟩ := holdsAt_append.mp hpayload
      exact bind_eq_ok_iff.mpr ⟨high, readU32_eq_ok_iff.mpr hhigh,
        bind_eq_ok_iff.mpr ⟨low, readU32_eq_ok_iff.mpr hlow, rfl⟩⟩
    | word tag bits =>
      cases htag
      exact map_eq_ok_iff.mpr ⟨bits, readU32_eq_ok_iff.mpr hpayload, rfl⟩
    | unknown number bits => cases htag

/-- **Reading is inverse to writing.** An entry is read at an offset exactly when it can be
written and its written form stands there. -/
theorem decode_eq_ok_iff {e : Entry} :
    decode b offset = .ok e ↔ e.Representable ∧ HoldsAt b offset e.encode := by
  rw [decode, bind_eq_ok_iff]
  constructor
  · rintro ⟨number, hnumber, h⟩
    rw [readU8_eq_ok_iff] at hnumber
    cases htag : Tag.ofNumber? number with
    | some tag =>
      rw [htag] at h
      obtain ⟨hetag, hrep, hpayload⟩ := decodePayload_eq_ok_iff.mp h
      have heq : number = e.number :=
        (Tag.ofNumber?_eq_some_iff.mp htag).trans (number_of_tag?_eq_some hetag).symm
      rw [heq] at hnumber
      exact ⟨hrep, holdsAt_append.mpr ⟨hnumber, hpayload⟩⟩
    | none =>
      rw [htag] at h
      obtain ⟨bits, hbits, rfl⟩ := map_eq_ok_iff.mp h
      exact ⟨htag, holdsAt_append.mpr ⟨hnumber, readU32_eq_ok_iff.mp hbits⟩⟩
  · rintro ⟨hrep, h⟩
    obtain ⟨hnumber, hpayload⟩ := holdsAt_append.mp h
    refine ⟨e.number, readU8_eq_ok_iff.mpr hnumber, ?_⟩
    rw [ofNumber?_number hrep]
    cases htag : e.tag? with
    | some tag => exact decodePayload_eq_ok_iff.mpr ⟨htag, hrep, hpayload⟩
    | none =>
      cases e with
      | unknown number bits =>
        exact map_eq_ok_iff.mpr ⟨bits, readU32_eq_ok_iff.mpr hpayload, rfl⟩
      | _ => cases htag

/-- Two entries whose written forms stand at the same place are equal. -/
theorem encode_unique {e e' : Entry} (hrep : e.Representable) (hrep' : e'.Representable)
    (h : HoldsAt b offset e.encode) (h' : HoldsAt b offset e'.encode) : e = e' := by
  have heq := (decode_eq_ok_iff.mpr ⟨hrep, h⟩).symm.trans (decode_eq_ok_iff.mpr ⟨hrep', h'⟩)
  exact Except.ok.inj heq

end Entry

/-! ### Shapes of fields -/

/-- Bytes that can be the fields of an entry with a tag: as many as the tag asks for, or for a
text its length in two bytes and then that many. -/
def Tag.Fits (tag : Tag) (payload : ByteArray) : Prop :=
  match tag.payloadSize? with
  | some size => payload.size = size
  | none => ∃ (length : UInt16) (text : ByteArray),
      payload = encode16 length ++ text ∧ text.size = length.toNat

theorem Tag.fits_of_payloadSize?_eq_some {tag : Tag} {size : Nat}
    (h : tag.payloadSize? = some size) : tag.Fits s ↔ s.size = size := by
  rw [Fits, h]

theorem Tag.fits_of_payloadSize?_eq_none {tag : Tag} (h : tag.payloadSize? = none) :
    tag.Fits s ↔ ∃ (length : UInt16) (text : ByteArray),
      s = encode16 length ++ text ∧ text.size = length.toNat := by
  rw [Fits, h]

/-- **Shapes.** Bytes fit a tag exactly when they are the fields of an entry with that tag. -/
theorem Tag.fits_iff {tag : Tag} :
    tag.Fits s ↔ ∃ e : Entry, e.tag? = some tag ∧ e.Representable ∧ e.payload = s := by
  constructor
  · intro h
    cases tag with
    | utf8 =>
      obtain ⟨length, text, rfl, hsize⟩ := h
      have hlt := length.toNat_lt
      refine ⟨.utf8 text, rfl, show text.size < 65536 by omega, ?_⟩
      rw [Entry.payload, hsize, UInt16.ofNat_toNat]
    | classRef =>
      obtain ⟨index, rfl⟩ := exists_eq_encode16 h
      exact ⟨.classRef index, rfl, trivial, rfl⟩
    | stringRef =>
      obtain ⟨index, rfl⟩ := exists_eq_encode16 h
      exact ⟨.stringRef index, rfl, trivial, rfl⟩
    | methodType =>
      obtain ⟨index, rfl⟩ := exists_eq_encode16 h
      exact ⟨.methodType index, rfl, trivial, rfl⟩
    | moduleRef =>
      obtain ⟨index, rfl⟩ := exists_eq_encode16 h
      exact ⟨.moduleRef index, rfl, trivial, rfl⟩
    | packageRef =>
      obtain ⟨index, rfl⟩ := exists_eq_encode16 h
      exact ⟨.packageRef index, rfl, trivial, rfl⟩
    | methodHandle =>
      obtain ⟨t, u, rfl, ht, hu⟩ := exists_eq_append (m := 1) (n := 2) h
      obtain ⟨kind, rfl⟩ := exists_eq_push ht
      obtain ⟨index, rfl⟩ := exists_eq_encode16 hu
      exact ⟨.methodHandle kind index, rfl, trivial, rfl⟩
    | wide tag =>
      obtain ⟨t, u, rfl, ht, hu⟩ := exists_eq_append (m := 4) (n := 4) h
      obtain ⟨high, rfl⟩ := exists_eq_encode32 ht
      obtain ⟨low, rfl⟩ := exists_eq_encode32 hu
      exact ⟨.wide tag high low, rfl, trivial, rfl⟩
    | word tag =>
      obtain ⟨bits, rfl⟩ := exists_eq_encode32 h
      exact ⟨.word tag bits, rfl, trivial, rfl⟩
  · rintro ⟨e, htag, hrep, rfl⟩
    cases e with
    | utf8 text =>
      cases htag
      have hlt : text.size < 65536 := hrep
      exact ⟨UInt16.ofNat text.size, text, rfl, by rw [UInt16.toNat_ofNat']; omega⟩
    | unknown number bits => cases htag
    | _ => cases htag; rfl

namespace Entry

/-- No written form is longer than that of the longest text. -/
theorem size_payload_le {e : Entry} (h : e.Representable) : e.payload.size ≤ 65537 := by
  cases e with
  | utf8 text =>
    have hlt : text.size < 65536 := h
    rw [size_payload_utf8]
    omega
  | _ => exact Nat.le_of_ble_eq_true rfl

/-! ### Stepping over entries -/

/-- An entry that a scan steps over: it can be written, and the policy lets it have an unknown
tag if it has. -/
structure Allowed (policy : UnknownTagPolicy) (e : Entry) : Prop where
  representable : e.Representable
  policy_eq : e.tag? = none → policy = .assumeFourBytes

/-- Entries with a known tag are allowed under every policy. -/
theorem Allowed.of_tag?_ne_none {e : Entry} (h : e.Representable) (htag : e.tag? ≠ none) :
    e.Allowed policy :=
  ⟨h, fun hnone => absurd hnone htag⟩

/-- How far the written form of an entry reaches. -/
def extent (e : Entry) : Extent :=
  match e.tag? with
  | some tag => ⟨e.payload.size, tag.isWide, none⟩
  | none => ⟨e.payload.size, false, some e.number⟩

@[simp] theorem payload_extent (e : Entry) : e.extent.payload = e.payload.size := by
  rw [extent]
  split <;> rfl

/-- The extent of an entry ends where its written form does. -/
theorem add_payload_extent (e : Entry) (offset : Nat) :
    offset + 1 + e.extent.payload = offset + e.encode.size := by
  rw [payload_extent, size_encode, Nat.add_assoc]

/-- A wide entry takes two slots and any other one. -/
theorem slots_eq (e : Entry) : e.slots = if e.extent.isWide then 2 else 1 := by
  cases e <;> rfl

/-- The extent of an entry is told by its tag byte alone, unless it is a text. -/
theorem read_extent_of_number {e : Entry} (h : e.Allowed policy) (hutf8 : e.tag? ≠ some .utf8)
    (hnumber : readU8 b offset = .ok e.number) : Extent.read policy b offset = .ok e.extent := by
  refine bind_eq_ok_iff.mpr ⟨e.number, hnumber, ?_⟩
  rw [ofNumber?_number h.representable]
  cases e with
  | utf8 text => exact absurd rfl hutf8
  | unknown number bits =>
    cases h.policy_eq rfl
    rfl
  | _ => rfl

/-- The extent of a text is told by its tag byte and its length. -/
theorem read_extent_of_length {text : ByteArray} (h : (utf8 text).Representable)
    (hnumber : readU8 b offset = .ok (utf8 text).number)
    (hlength : readU16 b (offset + 1) = .ok (UInt16.ofNat text.size)) :
    Extent.read policy b offset = .ok (utf8 text).extent := by
  refine bind_eq_ok_iff.mpr ⟨_, hnumber, bind_eq_ok_iff.mpr ⟨_, hlength, ?_⟩⟩
  have hlt : text.size < 65536 := h
  have hsize : (UInt16.ofNat text.size).toNat = text.size := by
    rw [UInt16.toNat_ofNat']
    omega
  simp only [extent, tag?, hsize, size_payload_utf8]
  rfl

/-- **Stepping follows writing.** A scan steps over exactly the written form of an entry. -/
theorem read_extent {e : Entry} (h : e.Allowed policy) (hb : HoldsAt b offset e.encode) :
    Extent.read policy b offset = .ok e.extent := by
  obtain ⟨hnumber, hpayload⟩ := holdsAt_append.mp hb
  rw [← readU8_eq_ok_iff] at hnumber
  by_cases hutf8 : e.tag? = some .utf8
  · cases e with
    | utf8 text =>
      obtain ⟨hlength, -⟩ := holdsAt_append.mp hpayload
      exact read_extent_of_length h.representable hnumber (readU16_eq_ok_iff.mpr hlength)
    | _ => cases hutf8
  · exact read_extent_of_number h hutf8 hnumber

/-- The bytes that a scan steps over behind a known tag fit that tag. -/
private theorem fits_of_read_extent {tag : Tag} {number : UInt8} {extent : Extent}
    (hnumber : readU8 b offset = .ok number) (htag : Tag.ofNumber? number = some tag)
    (h : Extent.read policy b offset = .ok extent) (hle : offset + 1 + extent.payload ≤ b.size) :
    tag.Fits (b.extract (offset + 1) (offset + 1 + extent.payload)) := by
  obtain ⟨number', hnumber', h⟩ := bind_eq_ok_iff.mp h
  cases hnumber.symm.trans hnumber'
  simp only [htag] at h
  cases hsize : tag.payloadSize? with
  | some size =>
    rw [hsize] at h
    cases h
    rw [Tag.fits_of_payloadSize?_eq_some hsize, ByteArray.size_extract]
    dsimp only at hle ⊢
    omega
  | none =>
    rw [hsize] at h
    obtain ⟨length, hlength, h⟩ := bind_eq_ok_iff.mp h
    cases h
    dsimp only at hle ⊢
    rw [readU16_eq_ok_iff] at hlength
    rw [Tag.fits_of_payloadSize?_eq_none hsize]
    refine ⟨length, b.extract (offset + 3) (offset + 3 + length.toNat), ?_, ?_⟩
    · rw [← hlength.extract_eq, size_encode16,
        show offset + 1 + (2 + length.toNat) = offset + 3 + length.toNat by omega]
      exact ByteArray.extract_eq_extract_append_extract (offset + 3) (by omega) (by omega)
    · rw [ByteArray.size_extract]
      omega

/-- **Stepping meets only entries.** Whatever a scan steps over inside the bytes is the written
form of an entry. -/
theorem exists_of_read_extent {extent : Extent} (h : Extent.read policy b offset = .ok extent)
    (hle : offset + 1 + extent.payload ≤ b.size) :
    ∃ e : Entry, e.Allowed policy ∧ HoldsAt b offset e.encode ∧ extent = e.extent := by
  obtain ⟨number, hnumber, hrest⟩ := bind_eq_ok_iff.mp h
  have hsegment : HoldsAt b (offset + 1)
      (b.extract (offset + 1) (offset + 1 + extent.payload)) :=
    holdsAt_extract (Nat.le_add_right _ _) hle
  cases htag : Tag.ofNumber? number with
  | some tag =>
    obtain ⟨e, hetag, hrep, hpayload⟩ :=
      Tag.fits_iff.mp (fits_of_read_extent hnumber htag h hle)
    have hallowed : e.Allowed policy := ⟨hrep, fun hnone => by rw [hetag] at hnone; cases hnone⟩
    have heq : number = e.number :=
      (Tag.ofNumber?_eq_some_iff.mp htag).trans (number_of_tag?_eq_some hetag).symm
    have hb : HoldsAt b offset e.encode := by
      rw [heq, readU8_eq_ok_iff] at hnumber
      rw [← hpayload] at hsegment
      exact holdsAt_append.mpr ⟨hnumber, hsegment⟩
    exact ⟨e, hallowed, hb, Except.ok.inj (h.symm.trans (read_extent hallowed hb))⟩
  | none =>
    simp only [htag] at hrest
    cases policy with
    | reject => cases hrest
    | assumeFourBytes =>
      cases hrest
      obtain ⟨bits, hbits⟩ := exists_eq_encode32 (s := b.extract (offset + 1) (offset + 5))
        (by rw [ByteArray.size_extract]; simp only [guessedSize] at hle; omega)
      refine ⟨.unknown number bits, ⟨htag, fun _ => rfl⟩, ?_, rfl⟩
      have hpayload : HoldsAt b (offset + 1) (unknown number bits).payload := by
        rw [payload, ← hbits]
        exact hsegment
      exact holdsAt_append.mpr ⟨readU8_eq_ok_iff.mp hnumber, hpayload⟩

end Entry

end ClassRelay.ClassFile
