import ClassRelay.Bytes.Buffers

/-!
# Segments of byte strings

`HoldsAt b offset s` says that the bytes `s` stand in `b` from `offset` on. A format that is
written by concatenation is read by offsets; this predicate is where the two meet:

* **Concatenation** becomes a conjunction of segments, one behind the other
  (`holdsAt_append`).
* **Determinism**: segments of one size at one offset are equal (`HoldsAt.eq_of_size_eq`).
* **Locality**: a segment is kept by everything that leaves the bytes up to its end in place,
  in particular by cutting and by extending behind it (`HoldsAt.append_right`,
  `HoldsAt.of_append_right`).
-/

namespace ClassRelay

/-- The bytes `s` stand in `b` from `offset` on. -/
def HoldsAt (b : ByteArray) (offset : Nat) (s : ByteArray) : Prop :=
  offset + s.size ≤ b.size ∧ b.extract offset (offset + s.size) = s

instance (b : ByteArray) (offset : Nat) (s : ByteArray) : Decidable (HoldsAt b offset s) :=
  inferInstanceAs (Decidable (_ ∧ _))

variable {b s t x : ByteArray} {offset : Nat}

/-- A segment lies inside the bytes that hold it. -/
theorem HoldsAt.le_size (h : HoldsAt b offset s) : offset + s.size ≤ b.size := h.1

/-- A segment is what is cut out at its place. -/
theorem HoldsAt.extract_eq (h : HoldsAt b offset s) :
    b.extract offset (offset + s.size) = s := h.2

/-- Any cut inside is a segment. -/
theorem holdsAt_extract {stop : Nat} (hle : offset ≤ stop) (hstop : stop ≤ b.size) :
    HoldsAt b offset (b.extract offset stop) := by
  have hsize : offset + (b.extract offset stop).size = stop := by
    rw [ByteArray.size_extract]
    omega
  exact ⟨by rw [hsize]; exact hstop, by rw [hsize]⟩

/-- Segments of one size at one offset are equal. -/
theorem HoldsAt.eq_of_size_eq (hs : HoldsAt b offset s) (ht : HoldsAt b offset t)
    (hsize : s.size = t.size) : s = t := by
  rw [← hs.extract_eq, ← ht.extract_eq, hsize]

/-- A segment given byte by byte. -/
theorem holdsAt_iff_getElem : HoldsAt b offset s ↔
    ∃ h : offset + s.size ≤ b.size, ∀ i (hi : i < s.size), b[offset + i] = s[i] := by
  constructor
  · rintro ⟨hle, heq⟩
    refine ⟨hle, fun i hi => ?_⟩
    have hi' : i < (b.extract offset (offset + s.size)).size := by
      rw [heq]
      exact hi
    have hget : (b.extract offset (offset + s.size))[i] = b[offset + i] :=
      ByteArray.getElem_extract hi'
    rw [← hget]
    simp only [heq]
  · rintro ⟨hle, hget⟩
    refine ⟨hle, ByteArray.ext_getElem ?_ fun i hi hi' => ?_⟩
    · rw [ByteArray.size_extract]
      omega
    · rw [ByteArray.getElem_extract]
      exact hget i hi'

/-- A cut from the start that reaches the end is the whole. -/
theorem extract_zero_of_size_le {n : Nat} (h : s.size ≤ n) : s.extract 0 n = s := by
  refine ByteArray.ext ?_
  rw [ByteArray.data_extract, Array.extract_eq_self_of_le h]

@[simp] theorem holdsAt_empty : HoldsAt b offset ByteArray.empty ↔ offset ≤ b.size := by
  simp [HoldsAt]

/-! ### Concatenation -/

/-- A concatenation stands at a place exactly when its parts stand there, the second behind the
first. -/
theorem holdsAt_append :
    HoldsAt b offset (s ++ t) ↔ HoldsAt b offset s ∧ HoldsAt b (offset + s.size) t := by
  have hsize : offset + (s ++ t).size = offset + s.size + t.size := by
    rw [ByteArray.size_append, Nat.add_assoc]
  constructor
  · rintro ⟨hle, heq⟩
    rw [hsize] at hle heq
    rw [ByteArray.extract_eq_extract_append_extract (offset + s.size) (by omega) (by omega),
      ByteArray.append_eq_append_iff_of_size_eq_left (by rw [ByteArray.size_extract]; omega)]
      at heq
    exact ⟨⟨by omega, heq.1⟩, hle, heq.2⟩
  · rintro ⟨⟨hs, hseq⟩, ht, hteq⟩
    refine ⟨by omega, ?_⟩
    rw [hsize,
      ByteArray.extract_eq_extract_append_extract (offset + s.size) (by omega) (by omega),
      hseq, hteq]

/-- Bytes are what stands in front of a cut and what stands behind it. -/
theorem eq_extract_append_extract {k : Nat} (h : k ≤ b.size) :
    b = b.extract 0 k ++ b.extract k b.size := by
  rw [← ByteArray.extract_eq_extract_append_extract k (Nat.zero_le _) h,
    ByteArray.extract_zero_size]

theorem size_extract_zero {k : Nat} (h : k ≤ b.size) : (b.extract 0 k).size = k := by
  rw [ByteArray.size_extract]
  omega

/-- A segment at the start is a prefix. -/
theorem holdsAt_zero_iff : HoldsAt b 0 s ↔ ∃ rest, b = s ++ rest := by
  constructor
  · rintro ⟨hle, heq⟩
    refine ⟨b.extract s.size b.size, ?_⟩
    rw [Nat.zero_add] at hle heq
    calc b = b.extract 0 s.size ++ b.extract s.size b.size := eq_extract_append_extract hle
      _ = s ++ b.extract s.size b.size := by rw [heq]
  · rintro ⟨rest, rfl⟩
    refine ⟨by rw [ByteArray.size_append]; omega, ?_⟩
    rw [Nat.zero_add, ByteArray.extract_append_eq_left rfl]

/-! ### Locality -/

/-- A segment stays when bytes are added behind. -/
theorem HoldsAt.append_right (h : HoldsAt b offset s) : HoldsAt (b ++ x) offset s := by
  rw [holdsAt_iff_getElem] at h ⊢
  obtain ⟨hle, hget⟩ := h
  refine ⟨by rw [ByteArray.size_append]; omega, fun i hi => ?_⟩
  rw [ByteArray.getElem_append_left (by omega)]
  exact hget i hi

/-- A segment stays when bytes behind it are dropped. -/
theorem HoldsAt.of_append_right (h : HoldsAt (b ++ x) offset s)
    (hle : offset + s.size ≤ b.size) : HoldsAt b offset s := by
  rw [holdsAt_iff_getElem] at h ⊢
  obtain ⟨hle', hget⟩ := h
  refine ⟨hle, fun i hi => ?_⟩
  rw [← hget i hi, ByteArray.getElem_append_left (by omega)]

end ClassRelay
