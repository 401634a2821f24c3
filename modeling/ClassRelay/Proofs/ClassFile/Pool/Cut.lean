import ClassRelay.Proofs.ClassFile.Pool.Scan

/-!
# Scanning cut bytes

Where bytes end inside their pool, a scan passes the entries that are still whole and stops at
the one that is cut. Which check catches it depends on where the cut is:

* in front of the tag byte, or inside the length of a text, **a read fails**;
* anywhere behind, the extent is known and **ends past the bytes**.

Either way the error tells the size of the bytes and a byte that is missing from the entry
(`Pool.scan_of_cut`). Bytes that are cut are written `t` here, and `x` are those that were cut
off.
-/

namespace ClassRelay.ClassFile

open BigEndian

variable {policy : UnknownTagPolicy} {t x : ByteArray}

/-! ### One entry -/

/-- The extent of a cut text, if its length is cut already: the read of it fails. -/
private theorem read_extent_of_cut_length {text : ByteArray} {offset : Nat}
    (hnumber : readU8 t offset = .ok (Entry.utf8 text).number) (hcut : t.size < offset + 3) :
    Extent.read policy t offset = .error (pastEnd t (offset + 1) 2) := by
  rw [Extent.read, hnumber]
  change readU16 t (offset + 1) >>= _ = _
  rw [readU16_of_lt hcut]
  rfl

/-- **One cut entry.** Its extent is still found, or the read of it fails at a byte of the
entry. -/
theorem Entry.read_extent_of_cut {e : Entry} {offset : Nat} (he : e.Allowed policy)
    (hb : HoldsAt (t ++ x) offset e.encode) (hle : offset ≤ t.size)
    (hmax : offset + e.encode.size ≤ maxOffset) :
    Extent.read policy t offset = .ok e.extent ∨
      ∃ index, Extent.read policy t offset = .error (.outOfBounds index t.size) ∧
        t.size ≤ index ∧ index < offset + e.encode.size := by
  obtain ⟨hnumber, hpayload⟩ := holdsAt_append.mp hb
  have hsize := e.size_encode
  rcases Nat.lt_or_ge t.size (offset + 1) with hcut | hwhole
  · refine .inr ⟨offset, ?_, by omega, by omega⟩
    rw [Extent.read, readU8_of_lt hcut, pastEnd_of_le (by omega)]
    rfl
  · have hread : readU8 t offset = .ok e.number :=
      readU8_eq_ok_iff.mpr (hnumber.of_append_right hwhole)
    by_cases hutf8 : e.tag? = some .utf8
    · cases e with
      | utf8 text =>
        obtain ⟨hlength, -⟩ := holdsAt_append.mp hpayload
        rw [size_payload_utf8] at hsize
        rcases Nat.lt_or_ge t.size (offset + 3) with hcut | hwhole'
        · refine .inr ⟨offset + 2, ?_, by omega, by omega⟩
          rw [read_extent_of_cut_length hread hcut, pastEnd_of_le (by omega)]
          rfl
        · exact .inl (read_extent_of_length he.representable hread
            (readU16_eq_ok_iff.mpr (hlength.of_append_right hwhole')))
      | _ => cases hutf8
    · exact .inl (read_extent_of_number he hutf8 hread)

namespace Pool

variable {count slot cursor : Nat} {offsets : Array (Option Nat)} {warnings : Array Warning}
variable {es : List Entry}

/-- A scan stops at an entry that is cut. -/
theorem scanFrom_of_cut_entry {e : Entry} {room : Nat} (he : e.Allowed policy)
    (hb : HoldsAt (t ++ x) cursor e.encode) (hle : cursor ≤ t.size)
    (hcut : t.size < cursor + e.encode.size) (hmax : cursor + e.encode.size ≤ maxOffset) :
    ∃ index, (scanFrom policy t (room + 1) cursor offsets warnings).value =
        .error (.outOfBounds index t.size) ∧
      t.size ≤ index ∧ index < cursor + e.encode.size := by
  rcases e.read_extent_of_cut he hb hle hmax with hread | ⟨index, hread, hbounds⟩
  · refine ⟨cursor + e.encode.size - 1, ?_, by omega, by omega⟩
    rw [scanFrom, hread]
    simp only [Entry.add_payload_extent, if_pos hcut]
  · refine ⟨index, ?_, hbounds⟩
    rw [scanFrom, hread]

/-! ### A whole pool -/

/-- Entries that are whole are passed, up to the one that is cut. -/
theorem scanFrom_of_cut (hf : Fills policy count slot es)
    (hb : HoldsAt (t ++ x) cursor (Entry.encodeAll es)) (hle : cursor ≤ t.size)
    (hcut : t.size < cursor + (Entry.encodeAll es).size)
    (hmax : cursor + (Entry.encodeAll es).size ≤ maxOffset) :
    ∃ index, (scanFrom policy t (count - slot) cursor offsets warnings).value =
        .error (.outOfBounds index t.size) ∧
      t.size ≤ index ∧ index < cursor + (Entry.encodeAll es).size := by
  induction hf generalizing cursor offsets warnings with
  | done h => exact absurd hcut (Nat.not_lt.mpr hle)
  | @step slot e es h he hes ih =>
    obtain ⟨room, hroom⟩ : ∃ room, count - slot = room + 1 := ⟨count - slot - 1, by omega⟩
    obtain ⟨hhead, htail⟩ := holdsAt_append.mp hb
    have hsize : (Entry.encodeAll (e :: es)).size =
        e.encode.size + (Entry.encodeAll es).size := ByteArray.size_append
    rw [hsize] at hcut hmax ⊢
    -- The cut is inside the first entry, or that one is whole and the cut is behind it.
    rcases Nat.lt_or_ge t.size (cursor + e.encode.size) with hinside | hbehind
    · obtain ⟨index, hscan, hlow, hhigh⟩ :=
        scanFrom_of_cut_entry he hhead hle hinside (by omega)
      rw [hroom]
      exact ⟨index, hscan, hlow, by omega⟩
    · obtain ⟨index, hscan, hlow, hhigh⟩ := ih htail hbehind (by omega) (by omega)
      rw [hroom, scanFrom_step he (hhead.of_append_right hbehind), ← hroom, Nat.sub_sub]
      exact ⟨index, hscan, hlow, by omega⟩

/-- **A cut pool.** The scan fails with the size of the bytes and a byte of the pool that is
missing. -/
theorem scan_of_cut {count : UInt16}
    (hcount : HoldsAt (t ++ x) poolCountOffset (encode16 count))
    (hf : Fills policy count.toNat 1 es) (hb : HoldsAt (t ++ x) poolStart (Entry.encodeAll es))
    (hle : poolStart ≤ t.size) (hcut : t.size < poolStart + (Entry.encodeAll es).size) :
    ∃ index, (scan policy t).value = .error (.outOfBounds index t.size) ∧
      t.size ≤ index ∧ index < poolStart + (Entry.encodeAll es).size := by
  have hread : readU16 t poolCountOffset = .ok count :=
    readU16_eq_ok_iff.mpr (hcount.of_append_right hle)
  -- The declared number of slots keeps every offset far below the largest one.
  have hlt := count.toNat_lt
  have hlarge := hf.size_encodeAll_le
  have hmax : poolStart + (Entry.encodeAll es).size ≤ maxOffset := by
    simp only [poolStart, maxOffset, UInt64.size]
    omega
  rcases Nat.eq_zero_or_pos count.toNat with hzero | hpos
  · rw [hzero] at hlarge
    omega
  · rw [scan_of_count hread hpos]
    exact scanFrom_of_cut hf hb hle hcut hmax

end Pool

end ClassRelay.ClassFile
