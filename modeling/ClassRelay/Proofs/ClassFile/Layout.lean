import ClassRelay.ClassFile.Basic
import ClassRelay.Proofs.ClassFile.Pool.Index
import ClassRelay.Proofs.ClassFile.Pool.Scan

/-!
# The format of class files

A `Layout` is what a class file says, in the order in which it is written: the versions, the
declared number of slots, the entries, the fixed fields, the interfaces, and bytes that nobody
looks at. `Layout.bytes` writes it down, and `Layout.WellFormed` is the rule of the format: the
entries fill the declared slots, and the number of interfaces fits into two bytes.

* **Reading accepts the format**: `parse_eq_ok_iff` says that class bytes are accepted exactly
  when they are a written layout, and that the class that is read says what the layout says.
* **One reading**: no bytes are two layouts (`Layout.WellFormed.unique`).
-/

namespace ClassRelay.ClassFile

open BigEndian

variable {b : ByteArray} {offset : Nat} {policy policy' : UnknownTagPolicy}

/-! ### Tables of words -/

/-- Words, one behind the other. -/
def encodeWords (words : List UInt16) : ByteArray :=
  Buffers.join (words.map encode16)

@[simp] theorem size_encodeWords (words : List UInt16) :
    (encodeWords words).size = 2 * words.length := by
  induction words with
  | nil => rfl
  | cons v words ih =>
    have hcons : encodeWords (v :: words) = encode16 v ++ encodeWords words := rfl
    rw [hcons, ByteArray.size_append, ih, size_encode16, List.length_cons]
    omega

/-- A table of words stands at a place exactly when each of its words does. -/
theorem holdsAt_encodeWords {words : List UInt16} : HoldsAt b offset (encodeWords words) ↔
    offset + 2 * words.length ≤ b.size ∧
      ∀ k (hk : k < words.length), HoldsAt b (offset + 2 * k) (encode16 words[k]) := by
  induction words generalizing offset with
  | nil => simp [encodeWords, Buffers.join]
  | cons v words ih =>
    have hcons : encodeWords (v :: words) = encode16 v ++ encodeWords words := rfl
    have hlength : (v :: words).length = words.length + 1 := rfl
    rw [hcons, holdsAt_append, ih, size_encode16]
    constructor
    · rintro ⟨hhead, hle, htail⟩
      refine ⟨by omega, fun k hk => ?_⟩
      cases k with
      | zero => exact hhead
      | succ k =>
        have hk' := htail k (by omega)
        rwa [show offset + 2 + 2 * k = offset + 2 * (k + 1) by omega] at hk'
    · rintro ⟨hle, hwords⟩
      refine ⟨hwords 0 (by omega), by omega, fun k hk => ?_⟩
      have hk' := hwords (k + 1) (by omega)
      rwa [show offset + 2 * (k + 1) = offset + 2 + 2 * k by omega] at hk'

/-! ### Layouts -/

/-- What a class file says, in the order in which it is written. -/
@[ext] structure Layout where
  minor : UInt16
  major : UInt16
  /-- The declared number of slots. -/
  count : UInt16
  entries : List Entry
  access : AccessFlags
  thisClass : UInt16
  superClass : UInt16
  interfaces : List UInt16
  /-- Fields, methods and attributes, or anything else. -/
  rest : ByteArray
  deriving DecidableEq

namespace Layout

variable {l l' : Layout}

/-- The magic number, the versions and the number of slots. -/
def head (l : Layout) : ByteArray :=
  encode32 magic ++ encode16 l.minor ++ encode16 l.major ++ encode16 l.count

/-- The access flags, the slots of the class and its superclass, and the interfaces behind
their number. -/
def info (l : Layout) : ByteArray :=
  encode16 l.access.bits ++ encode16 l.thisClass ++ encode16 l.superClass ++
    encode16 (UInt16.ofNat l.interfaces.length) ++ encodeWords l.interfaces

/-- What is looked at when a class file is read. -/
def core (l : Layout) : ByteArray :=
  l.head ++ Entry.encodeAll l.entries ++ l.info

/-- The bytes of a class file. -/
def bytes (l : Layout) : ByteArray :=
  l.core ++ l.rest

/-- The rule of the format, under a policy for unknown tags. -/
structure WellFormed (policy : UnknownTagPolicy) (l : Layout) : Prop where
  /-- The entries fill the slots from one on. -/
  fills : Fills policy l.count.toNat 1 l.entries
  /-- The number of interfaces fits into two bytes. -/
  length_lt : l.interfaces.length < 65536

/-- Where the pool of a layout ends. -/
def stop (l : Layout) : Nat :=
  poolStart + (Entry.encodeAll l.entries).size

/-- The class file that a layout says. -/
def toClassFile (l : Layout) : ClassFile where
  minor := l.minor
  major := l.major
  pool := Pool.ofEntries l.bytes l.count.toNat l.entries
  access := l.access
  thisClass := l.thisClass
  superClass := l.superClass
  interfaces := l.interfaces.toArray

@[simp] theorem size_head (l : Layout) : l.head.size = poolStart := rfl

@[simp] theorem size_info (l : Layout) : l.info.size = 8 + 2 * l.interfaces.length := by
  rw [info, ByteArray.size_append, size_encodeWords]
  rfl

@[simp] theorem size_core (l : Layout) : l.core.size = l.stop + 8 + 2 * l.interfaces.length := by
  rw [core, ByteArray.size_append, ByteArray.size_append, size_head, size_info, stop]
  omega

/-- The start of class bytes is that of a layout exactly when all its parts stand in their
places. -/
theorem holdsAt_core : HoldsAt b 0 l.core ↔
    (HoldsAt b 0 (encode32 magic) ∧ HoldsAt b 4 (encode16 l.minor) ∧
      HoldsAt b 6 (encode16 l.major) ∧ HoldsAt b poolCountOffset (encode16 l.count)) ∧
    HoldsAt b poolStart (Entry.encodeAll l.entries) ∧
    HoldsAt b l.stop (encode16 l.access.bits) ∧
    HoldsAt b (l.stop + 2) (encode16 l.thisClass) ∧
    HoldsAt b (l.stop + 4) (encode16 l.superClass) ∧
    HoldsAt b (l.stop + 6) (encode16 (UInt16.ofNat l.interfaces.length)) ∧
    HoldsAt b (l.stop + 8) (encodeWords l.interfaces) := by
  simp only [core, head, info, stop, holdsAt_append, ByteArray.size_append, size_encode16,
    size_encode32, Nat.zero_add, poolStart, poolCountOffset, and_assoc]

end Layout

/-! ### Reading a layout -/

/-- Bytes are let in exactly when they start with the magic number and go on behind the fixed
head. -/
theorem checkStart_eq_ok_iff :
    checkStart b = .ok () ↔ HoldsAt b 0 (encode32 magic) ∧ poolStart < b.size := by
  have hmagic : poolStart < b.size → (HasMagic b ↔ HoldsAt b 0 (encode32 magic)) := by
    intro hlt
    simp only [poolStart] at hlt
    have hwhole : (encode32 magic).extract 0 b.size = encode32 magic :=
      extract_zero_of_size_le (by rw [size_encode32]; omega)
    rw [HasMagic, HoldsAt, hwhole, size_encode32, Nat.zero_add]
    exact ⟨fun h => ⟨by omega, h.2⟩, fun h => ⟨by omega, h.2⟩⟩
  rw [checkStart]
  by_cases hlt : poolStart < b.size
  · rw [← hmagic hlt, if_neg (Nat.not_le.mpr hlt)]
    by_cases h : HasMagic b
    · simp [h, hlt]
    · simp [h]
  · rw [if_pos (Nat.not_lt.mp hlt)]
    split <;> simp [hlt]

/-- The fields around a pool are read when they stand behind it. -/
theorem ofPool_eq_ok {p : Pool} {minor major thisClass superClass : UInt16}
    {access : AccessFlags} {interfaces : List UInt16} (hlength : interfaces.length < 65536)
    (hminor : HoldsAt p.bytes 4 (encode16 minor)) (hmajor : HoldsAt p.bytes 6 (encode16 major))
    (haccess : HoldsAt p.bytes p.stop (encode16 access.bits))
    (hthis : HoldsAt p.bytes (p.stop + 2) (encode16 thisClass))
    (hsuper : HoldsAt p.bytes (p.stop + 4) (encode16 superClass))
    (hcount : HoldsAt p.bytes (p.stop + 6) (encode16 (UInt16.ofNat interfaces.length)))
    (htable : HoldsAt p.bytes (p.stop + 8) (encodeWords interfaces)) :
    ofPool p = .ok ⟨minor, major, p, access, thisClass, superClass, interfaces.toArray⟩ := by
  have hfixed : p.stop + 8 ≤ p.bytes.size := hcount.le_size
  obtain ⟨hend, hwords⟩ := holdsAt_encodeWords.mp htable
  have hnumber : (word16 p.bytes (p.stop + 6) hfixed).toNat = interfaces.length := by
    rw [(word16_eq_iff hfixed).mpr hcount, UInt16.toNat_ofNat']
    omega
  rw [ofPool, dif_pos hfixed]
  dsimp only
  rw [dif_pos (by rw [hnumber]; exact hend), Except.ok.injEq, ClassFile.mk.injEq]
  refine ⟨(word16_eq_iff _).mpr hminor, (word16_eq_iff _).mpr hmajor, rfl,
    congrArg AccessFlags.mk ((word16_eq_iff _).mpr haccess), (word16_eq_iff _).mpr hthis,
    (word16_eq_iff _).mpr hsuper, Array.ext ?_ fun k hk hk' => ?_⟩
  · rw [Array.size_ofFn, hnumber]
    rfl
  · rw [Array.getElem_ofFn]
    exact (word16_eq_iff _).mpr (hwords k hk')

/-- What is read around a pool stands there. -/
theorem holdsAt_of_ofPool {p : Pool} {c : ClassFile} (h : ofPool p = .ok c) :
    c.interfaces.size < 65536 ∧
      HoldsAt p.bytes 4 (encode16 c.minor) ∧ HoldsAt p.bytes 6 (encode16 c.major) ∧
      HoldsAt p.bytes p.stop (encode16 c.access.bits) ∧
      HoldsAt p.bytes (p.stop + 2) (encode16 c.thisClass) ∧
      HoldsAt p.bytes (p.stop + 4) (encode16 c.superClass) ∧
      HoldsAt p.bytes (p.stop + 6) (encode16 (UInt16.ofNat c.interfaces.size)) ∧
      HoldsAt p.bytes (p.stop + 8) (encodeWords c.interfaces.toList) := by
  rw [ofPool] at h
  split at h
  next hfixed =>
    dsimp only at h
    split at h
    next hend =>
      cases h
      have hlt := (word16 p.bytes (p.stop + 6) hfixed).toNat_lt
      refine ⟨by rw [Array.size_ofFn]; exact hlt, holdsAt_word16 _, holdsAt_word16 _,
        holdsAt_word16 _, holdsAt_word16 _, holdsAt_word16 _, ?_, ?_⟩
      · rw [Array.size_ofFn, UInt16.ofNat_toNat]
        exact holdsAt_word16 hfixed
      · refine holdsAt_encodeWords.mpr ⟨?_, fun k hk => ?_⟩
        · rw [Array.length_toList, Array.size_ofFn]
          exact hend
        · rw [Array.getElem_toList, Array.getElem_ofFn]
          exact holdsAt_word16 _
    next => cases h
  next => cases h

theorem checkStart_of_parse {c : ClassFile}
    (h : (parse policy b).value = .ok c) : checkStart b = .ok () := by
  rw [parse] at h
  split at h
  next => cases h
  next hstart => exact hstart

namespace Layout

variable {l l' : Layout}

theorem holdsAt_core_bytes (l : Layout) : HoldsAt l.bytes 0 l.core :=
  holdsAt_zero_iff.mpr ⟨l.rest, rfl⟩

/-- **Completeness.** A written layout is read as what it says. -/
theorem parse_bytes (h : l.WellFormed policy) :
    (parse policy l.bytes).value = .ok l.toClassFile := by
  obtain ⟨⟨hmagic, hminor, hmajor, hcount⟩, hentries, haccess, hthis, hsuper, hnumber, htable⟩ :=
    holdsAt_core.mp l.holdsAt_core_bytes
  have hsize : poolStart < l.bytes.size := by
    have hle := hnumber.le_size
    rw [size_encode16, stop] at hle
    omega
  rw [parse, checkStart_eq_ok_iff.mpr ⟨hmagic, hsize⟩]
  dsimp only
  rw [Pool.scan_of_fills hcount h.fills hentries]
  exact ofPool_eq_ok h.length_lt hminor hmajor haccess hthis hsuper hnumber htable

/-- Reading it emits the warnings about its entries. -/
theorem WellFormed.log_parse_bytes (h : l.WellFormed policy) :
    (parse policy l.bytes).log = (places l.entries).filterMap Placement.warning? := by
  obtain ⟨⟨-, -, -, hcount⟩, hentries, -⟩ := holdsAt_core.mp l.holdsAt_core_bytes
  rw [parse, checkStart_of_parse (parse_bytes h), places,
    ← Pool.log_scan_of_fills hcount h.fills hentries]

/-- The pool of a layout is the index of its entries. -/
theorem WellFormed.indexes (h : l.WellFormed policy) :
    l.toClassFile.pool.Indexes policy l.entries where
  count_lt := by
    rw [toClassFile, Pool.count_ofEntries]
    exact l.count.toNat_lt
  fills := by
    rw [toClassFile, Pool.count_ofEntries]
    exact h.fills
  holdsAt := (holdsAt_core.mp l.holdsAt_core_bytes).2.1
  eq_ofEntries := by
    rw [toClassFile, Pool.count_ofEntries]
    rfl

/-- **Soundness.** Whatever is read is a written layout. -/
theorem exists_of_parse {c : ClassFile} (h : (parse policy b).value = .ok c) :
    ∃ l : Layout, l.WellFormed policy ∧ l.bytes = b := by
  rw [parse] at h
  split at h
  next => cases h
  next hstart =>
    obtain ⟨hmagic, -⟩ := checkStart_eq_ok_iff.mp hstart
    obtain ⟨p, hscan, hpool⟩ : ∃ p, (Pool.scan policy b).value = .ok p ∧ ofPool p = .ok c :=
      bind_eq_ok_iff.mp h
    obtain ⟨count, es, hcount, hf, hentries, rfl⟩ := Pool.scan_eq_ok_iff.mp hscan
    obtain ⟨hlt, hminor, hmajor, haccess, hthis, hsuper, hnumber, htable⟩ :=
      holdsAt_of_ofPool hpool
    -- The bytes behind the header are whatever is left.
    have hcore : HoldsAt b 0 (core ⟨c.minor, c.major, count, es, c.access, c.thisClass,
        c.superClass, c.interfaces.toList, ByteArray.empty⟩) :=
      holdsAt_core.mpr ⟨⟨hmagic, hminor, hmajor, hcount⟩, hentries, haccess, hthis, hsuper,
        hnumber, htable⟩
    obtain ⟨rest, hrest⟩ := holdsAt_zero_iff.mp hcore
    exact ⟨⟨c.minor, c.major, count, es, c.access, c.thisClass, c.superClass,
      c.interfaces.toList, rest⟩, ⟨hf, hlt⟩, hrest.symm⟩

/-- **Reading accepts the format.** Class bytes are accepted exactly when they are a written
layout, and the class that is read is the one that the layout says. -/
theorem parse_eq_ok_iff {c : ClassFile} : (parse policy b).value = .ok c ↔
    ∃ l : Layout, l.WellFormed policy ∧ l.bytes = b ∧ c = l.toClassFile := by
  constructor
  · intro h
    obtain ⟨l, hl, rfl⟩ := exists_of_parse h
    exact ⟨l, hl, rfl, Except.ok.inj (h.symm.trans (parse_bytes hl))⟩
  · rintro ⟨l, hl, rfl, rfl⟩
    exact parse_bytes hl

/-- **One reading.** Bytes are at most one layout. -/
theorem WellFormed.unique (h : l.WellFormed policy) (h' : l'.WellFormed policy)
    (hbytes : l.bytes = l'.bytes) : l = l' := by
  have hclass : l.toClassFile = l'.toClassFile := by
    have hparse := parse_bytes h
    rw [hbytes] at hparse
    exact Except.ok.inj (hparse.symm.trans (parse_bytes h'))
  rw [toClassFile, toClassFile, ClassFile.mk.injEq] at hclass
  obtain ⟨hminor, hmajor, hpool, haccess, hthis, hsuper, hinterfaces⟩ := hclass
  have hcount : l.count = l'.count := by
    have hslots := congrArg Pool.count hpool
    rw [Pool.count_ofEntries, Pool.count_ofEntries] at hslots
    exact UInt16.toNat_inj.mp hslots
  have hentries : l.entries = l'.entries := by
    have hf' := h'.fills
    have hheld := (holdsAt_core.mp l.holdsAt_core_bytes).2.1
    have hheld' := (holdsAt_core.mp l'.holdsAt_core_bytes).2.1
    rw [← hcount] at hf'
    rw [← hbytes] at hheld'
    exact h.fills.unique hf' hheld hheld'
  have hlist : l.interfaces = l'.interfaces := congrArg Array.toList hinterfaces
  have hcore : l.core = l'.core := by
    simp only [core, head, info, hminor, hmajor, hcount, hentries, haccess, hthis, hsuper, hlist]
  have hrest : l.rest = l'.rest := by
    rw [bytes, bytes, hcore] at hbytes
    exact (ByteArray.append_right_inj _).mp hbytes
  exact Layout.ext hminor hmajor hcount hentries haccess hthis hsuper hlist hrest

/-- The interface at a position, in the class that a layout says. -/
theorem interfaceIndex_toClassFile {k : Nat} (hk : k < l.interfaces.length) :
    l.toClassFile.interfaceIndex k = .ok l.interfaces[k] := by
  rw [interfaceIndex, toClassFile]
  simp [hk]

end Layout

/-- Loading gives what parsing gives; it only warns as well. -/
@[simp] theorem value_load : (load policy b).value = (parse policy b).value := by
  rw [load, Logged.value_bind, Logged.value_onError]

theorem Layout.load_bytes {l : Layout} (h : l.WellFormed policy) :
    (load policy l.bytes).value = .ok l.toClassFile :=
  value_load.trans (parse_bytes h)

/-- The pool of an accepted class is the index of some entries. -/
theorem exists_indexes_of_load {c : ClassFile} (h : (load policy b).value = .ok c) :
    ∃ es, c.pool.Indexes policy es := by
  rw [value_load] at h
  obtain ⟨l, hl, -, rfl⟩ := Layout.parse_eq_ok_iff.mp h
  exact ⟨l.entries, hl.indexes⟩

/-- **Class bytes are accepted exactly when they are written in the format.** They decompose in
one way only, and what is read are the fields of that decomposition. -/
theorem load_reads_layout (policy : UnknownTagPolicy) (b : ByteArray) :
    ((∃ c, (load policy b).value = .ok c) ↔ ∃ l : Layout, l.WellFormed policy ∧ l.bytes = b) ∧
    ∀ c, (load policy b).value = .ok c →
      ∃ l : Layout, l.WellFormed policy ∧ l.bytes = b ∧
        (∀ l' : Layout, l'.WellFormed policy → l'.bytes = b → l' = l) ∧
        c.minor = l.minor ∧ c.major = l.major ∧ c.pool.count = l.count.toNat ∧
        c.pool.byteSize = (Entry.encodeAll l.entries).size ∧ c.access = l.access ∧
        c.thisClass = l.thisClass ∧ c.superClass = l.superClass ∧
        c.interfaceCount = l.interfaces.length ∧
        ∀ k (hk : k < l.interfaces.length), c.interfaceIndex k = .ok l.interfaces[k] := by
  simp only [value_load, Layout.parse_eq_ok_iff]
  constructor
  · exact ⟨fun ⟨_, l, hl, hb, _⟩ => ⟨l, hl, hb⟩, fun ⟨l, hl, hb⟩ => ⟨_, l, hl, hb, rfl⟩⟩
  · rintro c ⟨l, hl, hb, rfl⟩
    exact ⟨l, hl, hb, fun l' hl' hb' => hl'.unique hl (hb'.trans hb.symm), rfl, rfl,
      Pool.count_ofEntries, Pool.byteSize_ofEntries, rfl, rfl, rfl, rfl,
      fun k hk => Layout.interfaceIndex_toClassFile hk⟩

end ClassRelay.ClassFile
