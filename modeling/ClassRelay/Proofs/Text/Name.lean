import ClassRelay.Proofs.Text.Rewriting

/-!
# What a decoder of names reads

Nothing that this library does depends on a decoder. Where a theorem is about **what the names are**
it says which of two things it asks of the decoder: that standard UTF-8 is kept
(`NameDecoder.KeepsUtf8`), and that other bytes are rewritten group by group, as modified UTF-8, or
refused (`NameDecoder.RewritesModifiedUtf8`).

So there are two readings, of which the first one goes first. They **do not disagree** where both
exist. Modified UTF-8 has no zero byte and no bytes of a character beyond the first `0x10000`, so
what standard UTF-8 reads from it are characters of one unit each, written alike in both
(`encodeUnit_of_char`). So whenever bytes are what units are written as, the name that is read is
what these units spell (`NameDecoder.eq_ok_iff_of_encode`).
-/

namespace ClassRelay

open ModifiedUtf8
open GeneralizedUtf8 (Spells encodePoint encodePoint_toNat spells_encode)

variable {u : UInt16} {units : List UInt16} {c : Char} {cs : List Char} {bytes : List UInt8}

/-! ### Where both readings exist -/

/-- A character of one unit, other than zero, is written alike in both encodings. -/
theorem encodeUnit_of_char (hu : u.toNat = c.toNat) (hpos : 0 < c.toNat) :
    encodeUnit u = String.utf8EncodeChar c := by
  rw [encodeUnit_eq_encodePoint (hu ▸ hpos), hu, encodePoint_toNat]

/-- No unit starts with a zero byte. -/
theorem units?_zero_cons : units? (0 :: bytes) = none := by
  rw [units?.eq_def]
  cases bytes with
  | nil => rfl
  | cons b bytes => cases bytes <;> rfl

/-- Nor with a character beyond those of one unit. -/
theorem units?_of_large (h : 0xFFFF < c.toNat) :
    units? (String.utf8EncodeChar c ++ bytes) = none := by
  have hvalid : c.toNat < 0xD800 ∨ 0xDFFF < c.toNat ∧ c.toNat < 0x110000 := c.valid
  -- The lead byte is one that starts no group.
  have hlead : (UInt8.ofNat (0xF0 + c.toNat / 262144)).toNat = 0xF0 + c.toNat / 262144 := by
    rw [UInt8.toNat_ofNat']
    omega
  rw [← encodePoint_toNat, encodePoint, if_neg (by omega), if_neg (by omega), if_neg (by omega),
    List.cons_append, units?.eq_def]
  dsimp only [List.cons_append, List.nil_append]
  rw [hlead, if_neg (by omega), if_neg (by omega), if_neg (by omega), if_neg (by omega)]

/-- **The readings do not disagree.** Characters written like units are what these units spell. -/
theorem spells_of_units? (h : units? (cs.flatMap String.utf8EncodeChar) = some units) :
    Spells units (cs.flatMap String.utf8EncodeChar) := by
  induction cs generalizing units with
  | nil =>
    cases h
    exact .nil
  | cons c cs ih =>
    rw [List.flatMap_cons] at h ⊢
    rcases Nat.eq_zero_or_pos c.toNat with hzero | hpos
    · have hc : String.utf8EncodeChar c = [0] := by
        rw [← encodePoint_toNat, hzero]
        rfl
      rw [hc, List.singleton_append, units?_zero_cons] at h
      cases h
    · rcases Nat.lt_or_ge 0xFFFF c.toNat with hlarge | hsmall
      · rw [units?_of_large hlarge] at h
        cases h
      · have hu : (UInt16.ofNat c.toNat).toNat = c.toNat := by
          rw [UInt16.toNat_ofNat']
          omega
        rw [← encodeUnit_of_char hu hpos, units?_append (form_encodeUnit _)] at h
        obtain ⟨rest, hrest, rfl⟩ := Option.map_eq_some_iff.mp h
        exact .char hu (ih hrest)

namespace NameDecoder

/-! ### What is asked of a decoder -/

/-- Standard UTF-8 is kept as it stands. -/
def KeepsUtf8 (decode : NameDecoder) : Prop :=
  ∀ b : ByteArray, b.IsValidUTF8 → decode b = .ok b

/-- Bytes that are no standard UTF-8 are read as modified UTF-8 from the first one on: they are
rewritten group by group, or refused. -/
def RewritesModifiedUtf8 (decode : NameDecoder) : Prop :=
  ∀ b name : ByteArray, ¬ b.IsValidUTF8 →
    (decode b = .ok name ↔ Rewrites b.data.toList name.data.toList)

variable {decode : NameDecoder} {b name : ByteArray}

/-- Both readings of what units are written as give what the units spell. -/
theorem eq_ok_iff_of_encode (hkeeps : decode.KeepsUtf8) (hrewrites : decode.RewritesModifiedUtf8)
    (h : b.data.toList = encode units) :
    decode b = .ok name ↔ Spells units name.data.toList := by
  by_cases hvalid : b.IsValidUTF8
  · have hspells : Spells units b.data.toList := by
      obtain ⟨cs, rfl⟩ := hvalid
      rw [List.utf8Encode, List.toList_data_toByteArray] at h ⊢
      exact spells_of_units? (units?_eq_some_iff.mpr h)
    rw [hkeeps b hvalid, Except.ok.injEq]
    constructor
    · rintro rfl
      exact hspells
    · intro hspells'
      exact ByteArray.ext (Array.toList_inj.mp (hspells.eq_encode.trans hspells'.eq_encode.symm))
  · rw [hrewrites b name hvalid, rewrites_iff, h]
    constructor
    · rintro ⟨units', heq, hspells⟩
      rwa [encode_inj.mp heq]
    · exact fun hspells => ⟨units, rfl, hspells⟩

/-- What units are written as is read. -/
theorem exists_eq_ok_of_encode (hkeeps : decode.KeepsUtf8)
    (hrewrites : decode.RewritesModifiedUtf8) (h : b.data.toList = encode units) :
    ∃ name, decode b = .ok name := by
  refine ⟨(GeneralizedUtf8.encode units).toByteArray,
    (eq_ok_iff_of_encode hkeeps hrewrites h).mpr ?_⟩
  rw [List.toList_data_toByteArray]
  exact spells_encode units

/-- A name is read if one of the two readings exists. -/
theorem exists_eq_ok_iff (hkeeps : decode.KeepsUtf8) (hrewrites : decode.RewritesModifiedUtf8) :
    (∃ name, decode b = .ok name) ↔ b.IsValidUTF8 ∨ ∃ units, b.data.toList = encode units := by
  constructor
  · rintro ⟨name, h⟩
    by_cases hvalid : b.IsValidUTF8
    · exact .inl hvalid
    · obtain ⟨units, hunits, -⟩ := rewrites_iff.mp ((hrewrites b name hvalid).mp h)
      exact .inr ⟨units, hunits⟩
  · rintro (hvalid | ⟨units, hunits⟩)
    · exact ⟨b, hkeeps b hvalid⟩
    · exact exists_eq_ok_of_encode hkeeps hrewrites hunits

/-! ### A decoder that does what is asked -/

/-- Does what is asked of a decoder, and does not tell where bytes are at fault. -/
def simple : NameDecoder := fun b =>
  if b.validateUTF8 then
    .ok b
  else
    match units? b.data.toList with
    | some units => .ok (GeneralizedUtf8.encode units).toByteArray
    | none => .error ⟨"not modified UTF-8"⟩

theorem simple_keepsUtf8 : simple.KeepsUtf8 := by
  intro b h
  rw [simple, if_pos (ByteArray.validateUTF8_eq_true_iff.mpr h)]

theorem simple_rewritesModifiedUtf8 : simple.RewritesModifiedUtf8 := by
  intro b name h
  rw [simple, if_neg (mt ByteArray.validateUTF8_eq_true_iff.mp h), rewrites_iff]
  constructor
  · intro hname
    cases hunits : units? b.data.toList with
    | none =>
      rw [hunits] at hname
      cases hname
    | some units =>
      rw [hunits] at hname
      cases hname
      refine ⟨units, units?_eq_some_iff.mp hunits, ?_⟩
      rw [List.toList_data_toByteArray]
      exact spells_encode units
  · rintro ⟨units, hunits, hspells⟩
    have hname : (GeneralizedUtf8.encode units).toByteArray = name :=
      ByteArray.ext (Array.toList_inj.mp (by rw [List.toList_data_toByteArray, hspells.eq_encode]))
    rw [units?_eq_some_iff.mpr hunits]
    exact congrArg Except.ok hname

end NameDecoder

end ClassRelay
