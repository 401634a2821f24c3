import ClassRelay.Assembler.Sample
import ClassRelay.Proofs.ClassFile.Pool.Cut
import ClassRelay.Proofs.ClassFile.SameAnswers

/-!
# Cutting and extending class bytes

Accepted bytes have an end of their header, behind the slots of the interfaces. This module says
what happens when the bytes are cut anywhere, or are given another tail (`load_cut`):

* **Behind the header** nothing changes but the bytes themselves: the class is accepted and
  answers alike.
* **Inside it** the class is refused, and the place of the cut alone tells with which error. An
  error that wants more bytes never wants more than there were.

So bytes that are refused for what they hold, and not for where they end, cannot be the start of
a class.
-/

namespace ClassRelay.ClassFile

open BigEndian

variable {policy : UnknownTagPolicy} {b t x : ByteArray}

/-- Where the pool of a class ends. -/
def poolEnd (c : ClassFile) : Nat :=
  poolStart + c.pool.byteSize

/-- Where the header of a class ends, with the slots of its interfaces. -/
def headerEnd (c : ClassFile) : Nat :=
  c.poolEnd + 8 + 2 * c.interfaceCount

/-! ### Errors of cut bytes -/

/-- The error `e` is right for the first `k` bytes of a class. -/
structure Refused (c : ClassFile) (k : Nat) (e : ClassError) : Prop where
  badMagic_iff : e = .badMagic ↔ k = 0
  tooSmall_iff : (∃ size required, e = .tooSmall size required) ↔
    (1 ≤ k ∧ k ≤ 10) ∨ max c.poolEnd 11 ≤ k
  outOfBounds_iff : (∃ index size, e = .outOfBounds index size) ↔ 11 ≤ k ∧ k < c.poolEnd
  /-- More bytes are wanted, but not more than the header has. -/
  tooSmall_bounds : ∀ size required, e = .tooSmall size required →
    size = k ∧ k < required ∧ required ≤ c.headerEnd
  /-- The byte that is wanted is one of the header that was cut off. -/
  outOfBounds_bounds : ∀ index size, e = .outOfBounds index size →
    size = k ∧ k ≤ index ∧ index < c.headerEnd

namespace Refused

variable {c : ClassFile} {k : Nat}

theorem badMagic : Refused c 0 .badMagic where
  badMagic_iff := by simp
  tooSmall_iff := by simp
  outOfBounds_iff := by simp
  tooSmall_bounds := by simp
  outOfBounds_bounds := by simp

theorem tooSmall {required : Nat} (hk : (1 ≤ k ∧ k ≤ 10) ∨ max c.poolEnd 11 ≤ k)
    (hlow : k < required) (hhigh : required ≤ c.headerEnd) :
    Refused c k (.tooSmall k required) where
  badMagic_iff := iff_of_false (by simp) (by omega)
  tooSmall_iff := iff_of_true ⟨k, required, rfl⟩ hk
  outOfBounds_iff := iff_of_false (by simp) (by omega)
  tooSmall_bounds := by
    rintro _ _ ⟨⟩
    exact ⟨rfl, hlow, hhigh⟩
  outOfBounds_bounds := by simp

theorem outOfBounds {index : Nat} (hk : 11 ≤ k ∧ k < c.poolEnd) (hlow : k ≤ index)
    (hhigh : index < c.headerEnd) : Refused c k (.outOfBounds index k) where
  badMagic_iff := iff_of_false (by simp) (by omega)
  tooSmall_iff := iff_of_false (by simp) (by omega)
  outOfBounds_iff := iff_of_true ⟨index, k, rfl⟩ hk
  tooSmall_bounds := by simp
  outOfBounds_bounds := by
    rintro _ _ ⟨⟩
    exact ⟨rfl, hlow, hhigh⟩

/-- A cut is never taken for a tag. -/
theorem ne_unknownTag {e : ClassError} (h : Refused c k e) (number : UInt8) :
    e ≠ .unknownTag number := by
  rintro rfl
  have hmagic := h.badMagic_iff
  have hsmall := h.tooSmall_iff
  have hbounds := h.outOfBounds_iff
  simp only [reduceCtorEq, exists_false, false_iff] at hmagic hsmall hbounds
  omega

end Refused

/-! ### The checks around the pool -/

theorem checkStart_of_size_eq_zero (h : t.size = 0) : checkStart t = .error .badMagic := by
  have hmagic : ¬ HasMagic t := fun hmagic => hmagic.1 h
  rw [checkStart, if_pos hmagic]

/-- As much of the magic number as is left is enough to look like a class. -/
theorem hasMagic_of_append (h : HoldsAt (t ++ x) 0 (encode32 magic)) (hpos : t.size ≠ 0) :
    HasMagic t := by
  obtain ⟨hle, hget⟩ := holdsAt_iff_getElem.mp h
  refine ⟨hpos, ByteArray.ext_getElem ?_ fun i hi hi' => ?_⟩
  · rw [ByteArray.size_extract, ByteArray.size_extract, size_encode32]
    omega
  · rw [ByteArray.size_extract] at hi
    rw [ByteArray.size_extract, size_encode32] at hi'
    have hbyte := hget i (by rw [size_encode32]; omega)
    rw [ByteArray.getElem_append_left (by omega)] at hbyte
    rw [ByteArray.getElem_extract, ByteArray.getElem_extract]
    simpa using hbyte

theorem checkStart_of_size_le (h : HoldsAt (t ++ x) 0 (encode32 magic)) (hpos : t.size ≠ 0)
    (hle : t.size ≤ poolStart) : checkStart t = .error (.tooSmall t.size (poolStart + 1)) := by
  rw [checkStart, if_neg (not_not_intro (hasMagic_of_append h hpos)), if_pos hle]

/-- The fixed fields behind the pool are cut. -/
theorem ofPool_of_lt_fields {p : Pool} (hcut : p.bytes.size < p.stop + 8) :
    ofPool p = .error (.tooSmall p.bytes.size (p.stop + 8)) := by
  rw [ofPool, dif_neg (Nat.not_le.mpr hcut)]

/-- The slots of the interfaces are cut. -/
theorem ofPool_of_lt_table {p : Pool} {number : UInt16}
    (hnumber : HoldsAt p.bytes (p.stop + 6) (encode16 number))
    (hcut : p.bytes.size < p.stop + 8 + 2 * number.toNat) :
    ofPool p = .error (.tooSmall p.bytes.size (p.stop + 8 + 2 * number.toNat)) := by
  have hfixed : p.stop + 8 ≤ p.bytes.size := hnumber.le_size
  have hword : word16 p.bytes (p.stop + 6) hfixed = number := (word16_eq_iff hfixed).mpr hnumber
  rw [← hword] at hcut ⊢
  rw [ofPool, dif_pos hfixed]
  exact dif_neg (Nat.not_le.mpr hcut)

namespace Layout

variable {l : Layout}

theorem poolEnd_toClassFile (l : Layout) : l.toClassFile.poolEnd = l.stop := by
  rw [poolEnd, stop]
  exact congrArg (poolStart + ·) Pool.byteSize_ofEntries

theorem headerEnd_toClassFile (l : Layout) : l.toClassFile.headerEnd = l.core.size := by
  rw [headerEnd, poolEnd_toClassFile, size_core]
  rfl

/-- The parts of a class stand in its bytes, wherever these are cut. -/
private theorem holdsAt_core_of_append (hb : l.bytes = t ++ x) : HoldsAt (t ++ x) 0 l.core :=
  hb ▸ l.holdsAt_core_bytes

/-! ### Inside the header -/

/-- Bytes with a cut behind the fixed head are let in. -/
private theorem checkStart_of_cut (hb : l.bytes = t ++ x) (hlong : poolStart < t.size) :
    checkStart t = .ok () := by
  obtain ⟨⟨hmagic, -⟩, -⟩ := holdsAt_core.mp (holdsAt_core_of_append hb)
  exact checkStart_eq_ok_iff.mpr ⟨hmagic.of_append_right (Nat.le_trans (by decide) hlong), hlong⟩

/-- A cut in the fixed head. -/
private theorem refused_of_le_poolStart (hb : l.bytes = t ++ x) (hshort : t.size ≤ poolStart) :
    ∃ e, (parse policy t).value = .error e ∧ Refused l.toClassFile t.size e := by
  obtain ⟨⟨hmagic, -⟩, -⟩ := holdsAt_core.mp (holdsAt_core_of_append hb)
  rcases Nat.eq_zero_or_pos t.size with hzero | hpos
  · refine ⟨.badMagic, ?_, ?_⟩
    · rw [parse, checkStart_of_size_eq_zero hzero]
    · rw [hzero]
      exact .badMagic
  · refine ⟨.tooSmall t.size (poolStart + 1), ?_,
      .tooSmall (.inl ⟨hpos, hshort⟩) (Nat.lt_succ_of_le hshort) ?_⟩
    · rw [parse, checkStart_of_size_le hmagic (Nat.ne_of_gt hpos) hshort]
    · rw [headerEnd_toClassFile, size_core, stop]
      omega

/-- A cut in the pool. -/
private theorem WellFormed.refused_of_lt_stop (h : l.WellFormed policy) (hb : l.bytes = t ++ x)
    (hlong : poolStart < t.size) (hcut : t.size < l.stop) :
    ∃ e, (parse policy t).value = .error e ∧ Refused l.toClassFile t.size e := by
  obtain ⟨⟨-, -, -, hcount⟩, hentries, -⟩ := holdsAt_core.mp (holdsAt_core_of_append hb)
  obtain ⟨index, hscan, hlow, hhigh⟩ :=
    Pool.scan_of_cut hcount h.fills hentries (Nat.le_of_lt hlong) hcut
  refine ⟨.outOfBounds index t.size, ?_, .outOfBounds ⟨hlong, ?_⟩ hlow ?_⟩
  · rw [parse, checkStart_of_cut hb hlong]
    dsimp only
    rw [hscan]
    rfl
  · rw [poolEnd_toClassFile]
    exact hcut
  · rw [headerEnd_toClassFile, size_core, stop]
    omega

/-- A cut behind the pool. -/
private theorem WellFormed.refused_of_stop_le (h : l.WellFormed policy) (hb : l.bytes = t ++ x)
    (hlong : poolStart < t.size) (hstop : l.stop ≤ t.size) (hcut : t.size < l.core.size) :
    ∃ e, (parse policy t).value = .error e ∧ Refused l.toClassFile t.size e := by
  obtain ⟨⟨-, -, -, hcount⟩, hentries, -, -, -, hnumber, -⟩ :=
    holdsAt_core.mp (holdsAt_core_of_append hb)
  -- The entries are whole, so only the two checks behind the pool are left to fail.
  have hparse : (parse policy t).value = ofPool (Pool.ofEntries t l.count.toNat l.entries) := by
    rw [parse, checkStart_of_cut hb hlong]
    dsimp only
    rw [Pool.scan_of_fills (hcount.of_append_right (Nat.le_of_lt hlong)) h.fills
      (hentries.of_append_right hstop)]
    rfl
  have hk : max l.toClassFile.poolEnd 11 ≤ t.size := by
    rw [poolEnd_toClassFile]
    exact Nat.max_le.mpr ⟨hstop, hlong⟩
  have hend : l.toClassFile.headerEnd = l.stop + 8 + 2 * l.interfaces.length :=
    l.headerEnd_toClassFile.trans l.size_core
  -- Unless the fixed fields are cut, the number of interfaces is among the bytes.
  rcases Nat.lt_or_ge t.size (l.stop + 8) with hfields | htable
  · refine ⟨_, hparse.trans (ofPool_of_lt_fields hfields), .tooSmall (.inr hk) hfields ?_⟩
    rw [hend]
    exact Nat.le_add_right _ _
  · have hlength : (UInt16.ofNat l.interfaces.length).toNat = l.interfaces.length := by
      have hlt := h.length_lt
      rw [UInt16.toNat_ofNat']
      omega
    rw [size_core, ← hlength] at hcut
    refine ⟨_, hparse.trans (ofPool_of_lt_table (hnumber.of_append_right htable) hcut),
      .tooSmall (.inr hk) hcut ?_⟩
    rw [hend, hlength]
    exact Nat.le_refl _

/-- **A cut header.** The class is refused, with the error that belongs to the cut. -/
theorem WellFormed.refused (h : l.WellFormed policy) (hb : l.bytes = t ++ x)
    (hcut : t.size < l.core.size) :
    ∃ e, (parse policy t).value = .error e ∧ Refused l.toClassFile t.size e := by
  rcases Nat.lt_or_ge poolStart t.size with hlong | hshort
  · rcases Nat.lt_or_ge t.size l.stop with hpool | hbehind
    · exact h.refused_of_lt_stop hb hlong hpool
    · exact h.refused_of_stop_le hb hlong hbehind hcut
  · exact refused_of_le_poolStart hb hshort

end Layout

/-! ### Behind the header -/

/-- What is emitted about accepted bytes comes from reading them. -/
theorem log_load_of_eq_ok {c : ClassFile} (h : (load policy b).value = .ok c) :
    (load policy b).log = (parse policy b).log := by
  rw [value_load] at h
  rw [load, Logged.log_bind, h]
  exact List.append_nil _

/-- Behind that, a refusal is emitted. -/
theorem log_load_of_eq_error {e : ClassError} (h : (load policy b).value = .error e) :
    (load policy b).log = (parse policy b).log ++ [.rejected b.size e] := by
  rw [value_load] at h
  rw [load, Logged.log_bind, h]
  rfl

/-- Bytes are read as a class like `c`, with the warnings `log`. -/
def LoadsLike (policy : UnknownTagPolicy) (c : ClassFile) (log : List Warning)
    (b : ByteArray) : Prop :=
  ∃ c', (load policy b).value = .ok c' ∧ SameAnswers c c' ∧ (load policy b).log = log

namespace Layout

variable {l : Layout}

/-- Bytes that start with the header of a class are a class that answers alike. -/
theorem WellFormed.loadsLike (h : l.WellFormed policy) (ht : HoldsAt t 0 l.core) :
    LoadsLike policy l.toClassFile (load policy l.bytes).log t := by
  obtain ⟨rest, hrest⟩ := holdsAt_zero_iff.mp ht
  have hbytes : { l with rest := rest }.bytes = t := hrest.symm
  have h' : { l with rest := rest }.WellFormed policy := ⟨h.fills, h.length_lt⟩
  have hload' : (load policy t).value = .ok { l with rest := rest }.toClassFile :=
    hbytes ▸ load_bytes h'
  refine ⟨_, hload', h.sameAnswers rest, ?_⟩
  rw [log_load_of_eq_ok (load_bytes h), log_load_of_eq_ok hload', h.log_parse_bytes, ← hbytes,
    h'.log_parse_bytes]

/-- **Every cut.** Bytes that a class starts with are read like it or refused, as their size
tells. -/
theorem WellFormed.cut (h : l.WellFormed policy) (hb : l.bytes = t ++ x) :
    (l.toClassFile.headerEnd ≤ t.size ∧
      LoadsLike policy l.toClassFile (load policy l.bytes).log t) ∨
    (t.size < l.toClassFile.headerEnd ∧
      ∃ e, (load policy t).value = .error e ∧ Refused l.toClassFile t.size e) := by
  rw [headerEnd_toClassFile]
  rcases Nat.lt_or_ge t.size l.core.size with hcut | hle
  · rw [value_load]
    exact .inr ⟨hcut, h.refused hb hcut⟩
  · have hcore := holdsAt_core_of_append hb
    exact .inl ⟨hle, h.loadsLike (hcore.of_append_right (by rwa [Nat.zero_add]))⟩

/-- The same for a cut behind the first `k` bytes. -/
theorem WellFormed.cut_extract (h : l.WellFormed policy) {k : Nat} (hk : k ≤ l.bytes.size) :
    (l.toClassFile.headerEnd ≤ k ∧
      LoadsLike policy l.toClassFile (load policy l.bytes).log (l.bytes.extract 0 k)) ∨
    (k < l.toClassFile.headerEnd ∧
      ∃ e, (load policy (l.bytes.extract 0 k)).value = .error e ∧ Refused l.toClassFile k e) := by
  have hcut := h.cut (eq_extract_append_extract hk)
  rwa [size_extract_zero hk] at hcut

end Layout

/-! ### Accepted bytes -/

/-- The header of accepted bytes decides what is read from them. -/
structure HeaderDecides (policy : UnknownTagPolicy) (b : ByteArray) (c : ClassFile) : Prop where
  /-- Cut bytes are accepted exactly when the header is whole. -/
  accepted_iff : ∀ k ≤ b.size,
    (∃ c', (load policy (b.extract 0 k)).value = .ok c') ↔ c.headerEnd ≤ k
  /-- If they are, everything but the bytes is the same. -/
  loadsLike : ∀ k ≤ b.size, c.headerEnd ≤ k →
    LoadsLike policy c (load policy b).log (b.extract 0 k)
  /-- If they are not, the place of the cut tells the error. -/
  refused : ∀ k ≤ b.size, ∀ e, (load policy (b.extract 0 k)).value = .error e → Refused c k e
  /-- Any other bytes may stand behind the header. -/
  replaced : ∀ tail,
    LoadsLike policy c (load policy b).log (b.extract 0 c.headerEnd ++ tail)
  /-- Bytes that can be extended to these are not refused for what they hold, and an error asks
  for no more than is there then. -/
  extended : ∀ a x e, a ++ x = b → (load policy a).value = .error e →
    (a.size ≠ 0 → e ≠ .badMagic) ∧ (∀ number, e ≠ .unknownTag number) ∧
    (∀ size required, e = .tooSmall size required → required ≤ b.size) ∧
    ∀ index size, e = .outOfBounds index size → index < b.size

/-- **Cutting and extending.** Let bytes be accepted as a class. Cut behind its header, or given
another tail there, they still are, and answer alike; cut inside it, they are refused with the
error of that place. -/
theorem load_cut {c : ClassFile} (h : (load policy b).value = .ok c) :
    HeaderDecides policy b c := by
  rw [value_load] at h
  obtain ⟨l, hl, rfl, rfl⟩ := Layout.parse_eq_ok_iff.mp h
  have hend := l.headerEnd_toClassFile
  have hwithin : l.core.size ≤ l.bytes.size := by
    rw [Layout.bytes, ByteArray.size_append]
    exact Nat.le_add_right _ _
  refine ⟨fun k hk => ?_, fun k hk hle => ?_, fun k hk e he => ?_, fun tail => ?_,
    fun a x e hb he => ?_⟩
  · rcases hl.cut_extract hk with ⟨hle, c', hload, -⟩ | ⟨hlt, e, he, -⟩
    · exact iff_of_true ⟨c', hload⟩ hle
    · refine iff_of_false ?_ (Nat.not_le.mpr hlt)
      rw [he]
      simp
  · rcases hl.cut_extract hk with ⟨-, hlike⟩ | ⟨hlt, -⟩
    · exact hlike
    · exact absurd hle (Nat.not_le.mpr hlt)
  · rcases hl.cut_extract hk with ⟨-, c', hload, -⟩ | ⟨-, e', he', hrefused⟩
    · cases hload.symm.trans he
    · cases he'.symm.trans he
      exact hrefused
  · refine hl.loadsLike (holdsAt_zero_iff.mpr ⟨tail, ?_⟩)
    rw [hend, Layout.bytes, ByteArray.extract_append_eq_left rfl]
  · -- An extension that is accepted starts with these bytes, so they are cut inside its header.
    rcases hl.cut hb.symm with ⟨-, c', hload, -⟩ | ⟨-, e', he', hrefused⟩
    · cases hload.symm.trans he
    · cases he'.symm.trans he
      refine ⟨fun hne hmagic => hne (hrefused.badMagic_iff.mp hmagic), hrefused.ne_unknownTag,
        fun size required heq => ?_, fun index size heq => ?_⟩
      · have hbounds := hrefused.tooSmall_bounds size required heq
        omega
      · have hbounds := hrefused.outOfBounds_bounds index size heq
        omega

/-- The sample class has interfaces, so it can be cut in all its parts. -/
theorem load_cut_sample : ∃ c, (load .reject Assembler.sampleClass).value = .ok c ∧
    HeaderDecides .reject Assembler.sampleClass c := by
  obtain ⟨c, hc⟩ : ∃ c, (load .reject Assembler.sampleClass).value = .ok c :=
    exists_eq_ok_of_isOk (by decide +kernel)
  exact ⟨c, hc, load_cut hc⟩

end ClassRelay.ClassFile
