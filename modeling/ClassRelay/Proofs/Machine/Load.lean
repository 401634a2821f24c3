import ClassRelay.Proofs.ClassFile.SlotCount
import ClassRelay.Proofs.Machine.Scan

/-!
# Class files on a machine

`Machine.loadClass` reads class bytes as `ClassFile.load` does, on a machine: every sum, difference
and product of it is taken in words, tables and byte strings are entered at words, and where a
result would not be exact the machine stops with a fault.

For byte strings of every size that a machine can hold, it meets **no fault**
(`loadClass_runs_exact`): it refuses what `ClassFile.load` refuses, with the same error, and what it
accepts is the same class (`Class.RunsAs`). All questions about an accepted class are answered
alike, again without a fault: for every slot number, every position of an interface that is a
word, and after any number of steps of a walk.
-/

namespace ClassRelay.Machine

open ClassFile

variable {policy : UnknownTagPolicy} {b : ByteArray}

/-- An accepted class file, in words. -/
structure Class where
  minor : UInt16
  major : UInt16
  pool : Pool
  access : UInt16
  thisClass : UInt16
  superClass : UInt16
  interfaceCount : UInt16
  /-- The offset of the slots of the interfaces. -/
  interfaceStart : UInt64

/-- Judges bytes by their start and their size. -/
def checkStart (b : ByteArray) : Run Unit := do
  let start ← slice b 0 (UInt64.ofNat (min b.size 4))
  let expected ← slice (BigEndian.encode32 magic) 0 (UInt64.ofNat start.size)
  if start.size = 0 ∨ start ≠ expected then
    throw (.refused .badMagic)
  else if b.size ≤ 10 then
    let required ← add 10 1
    throw (.refused (.tooSmall b.size required.toNat))
  else return ()

/-- Demands that there are as many bytes. -/
def require (b : ByteArray) (needed : UInt64) : Run Unit :=
  if b.size < needed.toNat then .error (.refused (.tooSmall b.size needed.toNat)) else .ok ()

/-- The two bytes a little behind an offset. -/
def readBehind (b : ByteArray) (start gap : UInt64) : Run UInt16 := do
  readU16 b (← add start gap)

/-- Reads the fields around a pool that is already indexed. -/
def ofPool (p : Pool) : Run Class := do
  let interfaceStart ← add p.stop 8
  require p.bytes interfaceStart
  let interfaceCount ← readBehind p.bytes p.stop 6
  require p.bytes (← add interfaceStart (← mul 2 interfaceCount.toUInt64))
  let minor ← readU16 p.bytes 4
  let major ← readU16 p.bytes 6
  let access ← readU16 p.bytes p.stop
  let thisClass ← readBehind p.bytes p.stop 2
  let superClass ← readBehind p.bytes p.stop 4
  return ⟨minor, major, p, access, thisClass, superClass, interfaceCount, interfaceStart⟩

/-- Reads class bytes. -/
def loadClass (policy : UnknownTagPolicy) (b : ByteArray) : Run Class := do
  checkStart b
  ofPool (← scan policy b)

/-- The slot of the interface at a position. -/
def Class.interfaceIndex (c : Class) (position : UInt64) : Run UInt16 :=
  if c.interfaceCount.toNat ≤ position.toNat then
    .error (.refused (.noSuchInterface position.toNat c.interfaceCount))
  else do
    readBehind c.pool.bytes c.interfaceStart (← mul position 2)

/-- A class in words is the class `c`, and answers every question as it does, without a fault. -/
structure Class.RunsAs (m : Class) (c : ClassFile) : Prop where
  minor_eq : m.minor = c.minor
  major_eq : m.major = c.major
  pool_eq : m.pool.toPool = c.pool
  access_eq : ⟨m.access⟩ = c.access
  thisClass_eq : m.thisClass = c.thisClass
  superClass_eq : m.superClass = c.superClass
  interfaceCount_eq : m.interfaceCount.toNat = c.interfaceCount
  byteSize : ∃ size, m.pool.byteSize = .ok size ∧ size.toNat = c.pool.byteSize
  get (index : UInt16) : Agrees Eq (m.pool.get index) (c.pool.get index)
  utf8 (index : UInt16) : Agrees Eq (m.pool.utf8 index) (c.pool.utf8 index)
  rawClassName (index : UInt16) :
    Agrees Eq (m.pool.rawClassName index) (c.pool.rawClassName index)
  interfaceIndex (position : UInt64) :
    Agrees Eq (m.interfaceIndex position) (c.interfaceIndex position.toNat)
  walk (k : Nat) : ∃ w s, m.pool.walk.after k = .ok w ∧ w.next = .ok s ∧
    Cursor.SameStep s (c.pool.walk.after k).next

/-! ### The start -/

private theorem extract_min (b : ByteArray) (n : Nat) :
    b.extract 0 (min b.size n) = b.extract 0 n := by
  rcases Nat.le_total b.size n with hle | hle
  · rw [Nat.min_eq_left hle, ByteArray.extract_zero_size, extract_zero_of_size_le hle]
  · rw [Nat.min_eq_right hle]

theorem checkStart_agrees : Agrees Eq (checkStart b) (ClassFile.checkStart b) := by
  have hfour : min b.size 4 ≤ 4 := Nat.min_le_right _ _
  have hword : (UInt64.ofNat (min b.size 4)).toNat = min b.size 4 :=
    UInt64.toNat_ofNat_of_lt' (Nat.lt_of_le_of_lt hfour (by decide))
  have hsize : (b.extract 0 4).size = min b.size 4 := by
    rw [ByteArray.size_extract]
    omega
  have hstart : slice b 0 (UInt64.ofNat (min b.size 4)) = .ok (b.extract 0 4) := by
    rw [slice_of_le (Nat.zero_le _) (by rw [hword]; exact Nat.min_le_left _ _), hword]
    exact congrArg Except.ok (extract_min b 4)
  have hexpected : slice (BigEndian.encode32 magic) 0 (UInt64.ofNat (min b.size 4)) =
      .ok ((BigEndian.encode32 magic).extract 0 b.size) := by
    rw [slice_of_le (Nat.zero_le _) (by rw [hword]; exact hfour), hword, Nat.min_comm]
    exact congrArg Except.ok (extract_min (BigEndian.encode32 magic) b.size)
  have hmagic : (min b.size 4 = 0 ∨
      b.extract 0 4 ≠ (BigEndian.encode32 magic).extract 0 b.size) ↔ ¬ HasMagic b := by
    rw [HasMagic, Decidable.not_and_iff_or_not, Decidable.not_not]
    exact or_congr_left (by omega)
  rw [checkStart, hstart]
  dsimp only [bind, Except.bind]
  rw [hsize, hexpected, ClassFile.checkStart]
  dsimp only
  by_cases hforeign : ¬ HasMagic b
  · rw [if_pos (hmagic.mpr hforeign), if_pos hforeign]
    exact .refused
  · rw [if_neg (mt hmagic.mp hforeign), if_neg hforeign]
    by_cases hsmall : b.size ≤ poolStart
    · rw [if_pos (show b.size ≤ 10 from hsmall), if_pos hsmall]
      exact .refused
    · rw [if_neg (show ¬ b.size ≤ 10 from hsmall), if_neg hsmall]
      exact .ok rfl

/-! ### The fields around the pool -/

theorem readBehind_of_le {start gap : UInt64} {n : Nat} (hn : start.toNat + gap.toNat = n)
    (h : n + 2 ≤ b.size) (hb : b.size ≤ maxSize) :
    readBehind b start gap = .ok (word16 b n h) := by
  subst hn
  obtain ⟨place, hadd, hplace⟩ := exists_add (v := start) (w := gap) (lt_size_of_le (by omega))
  have hle : place.toNat + 2 ≤ b.size := by omega
  rw [readBehind, hadd]
  dsimp only [bind, Except.bind]
  rw [readU16_of_le hle hb]
  simp only [hplace]

theorem Pool.Sized.byteSize_exact {p : Pool} (h : p.Sized) :
    ∃ size, p.byteSize = .ok size ∧ size.toNat = p.toPool.byteSize :=
  exists_sub h.start_le

theorem Pool.Sized.walk_agrees {p : Pool} (h : p.Sized) (k : Nat) :
    ∃ w s, p.walk.after k = .ok w ∧ w.next = .ok s ∧
      Cursor.SameStep s (p.toPool.walk.after k).next := by
  obtain ⟨w, hafter, hpool, hw⟩ := Cursor.after_agrees (c := p.walk) h.bytes_le h.slots_le k
  have hb : w.pool.bytes.size ≤ maxSize := hpool ▸ h.bytes_le
  have hsize : w.pool.offsets.size ≤ UInt16.size := hpool ▸ h.slots_le
  obtain ⟨s, hnext, -, hsame⟩ := w.next_agrees hb hsize
  exact ⟨w, s, hafter, hnext, hw ▸ hsame⟩

theorem require_of_le {needed : UInt64} (h : needed.toNat ≤ b.size) : require b needed = .ok () :=
  if_neg (Nat.not_lt.mpr h)

theorem require_of_lt {needed : UInt64} (h : b.size < needed.toNat) :
    require b needed = .error (.refused (.tooSmall b.size needed.toNat)) :=
  if_pos h

section Fields

variable {p : Pool}

theorem ofPool_of_lt (h : p.Sized) (hlt : p.bytes.size < p.stop.toNat + 8) :
    ofPool p = .error (.refused (.tooSmall p.bytes.size (p.stop.toNat + 8))) := by
  obtain ⟨start, hadd, (hstart : start.toNat = p.stop.toNat + 8)⟩ :=
    exists_add_of_le (v := p.stop) (w := 8) (Nat.le_trans h.stop_le h.bytes_le) (by decide)
  rw [ofPool, hadd, ← hstart]
  dsimp only [bind, Except.bind]
  rw [require_of_lt (by omega)]

/-- Where eight bytes stand behind the pool, only the list of the interfaces can be missing. -/
theorem ofPool_of_le (h : p.Sized) (hle : p.stop.toNat + 8 ≤ p.bytes.size) :
    ∃ start needed : UInt64, start.toNat = p.stop.toNat + 8 ∧
      needed.toNat = start.toNat +
        2 * (word16 p.bytes (p.stop.toNat + 6) (by omega)).toNat ∧
      ofPool p = (require p.bytes needed >>= fun _ => .ok
        { minor := word16 p.bytes 4 (by omega)
          major := word16 p.bytes 6 (by omega)
          pool := p
          access := word16 p.bytes p.stop.toNat (by omega)
          thisClass := word16 p.bytes (p.stop.toNat + 2) (by omega)
          superClass := word16 p.bytes (p.stop.toNat + 4) (by omega)
          interfaceCount := word16 p.bytes (p.stop.toNat + 6) (by omega)
          interfaceStart := start }) := by
  have hb := h.bytes_le
  obtain ⟨start, hadd, (hstart : start.toNat = p.stop.toNat + 8)⟩ :=
    exists_add_of_le (v := p.stop) (w := 8) (Nat.le_trans h.stop_le hb) (by decide)
  have hcount : readBehind p.bytes p.stop 6 = .ok (word16 p.bytes (p.stop.toNat + 6) hle) :=
    readBehind_of_le rfl hle hb
  generalize word16 p.bytes (p.stop.toNat + 6) _ = count at hcount ⊢
  have hlt := count.toNat_lt_size
  have hroom : 2 * UInt16.size ≤ maxSize := by decide
  obtain ⟨list, hmul, (hlist : list.toNat = 2 * count.toNat)⟩ :=
    exists_mul (v := 2) (w := count.toUInt64) (lt_size_of_le (by change 2 * count.toNat ≤ _; omega))
  obtain ⟨needed, hadd', hneeded⟩ := exists_add_of_le (v := start) (w := list)
    (by omega) (by omega)
  refine ⟨start, needed, hstart, hneeded.trans (by rw [hlist]), ?_⟩
  rw [ofPool, hadd]
  dsimp only [bind, Except.bind]
  rw [require_of_le (by omega), hcount]
  dsimp only
  rw [hmul]
  dsimp only
  rw [hadd', readBehind_of_le (n := p.stop.toNat + 2) rfl (by omega) hb,
    readBehind_of_le (n := p.stop.toNat + 4) rfl (by omega) hb]
  have hminor : readU16 p.bytes 4 = .ok (word16 p.bytes 4 (by omega)) := readU16_of_le _ hb
  have hmajor : readU16 p.bytes 6 = .ok (word16 p.bytes 6 (by omega)) := readU16_of_le _ hb
  rw [hminor, hmajor, @readU16_of_le p.bytes p.stop (by omega) hb]
  rfl

/-- The slots of the interfaces are found. A position is doubled only if it is below their
number. -/
theorem Class.interfaceIndex_agrees {m : Class} {c : ClassFile} {position : UInt64}
    (hb : m.pool.bytes.size ≤ maxSize) (hcount : m.interfaceCount.toNat = c.interfaceCount)
    (hlist : m.interfaceStart.toNat + 2 * c.interfaceCount ≤ m.pool.bytes.size)
    (hslot : ∀ k (hk : k < c.interfaces.size), c.interfaces[k] =
      word16 m.pool.bytes (m.interfaceStart.toNat + 2 * k)
        (by change k < c.interfaceCount at hk; omega)) :
    Agrees Eq (m.interfaceIndex position) (c.interfaceIndex position.toNat) := by
  rw [interfaceIndex, ClassFile.interfaceIndex, hcount]
  rcases Nat.lt_or_ge position.toNat c.interfaceCount with hlt | hge
  · have hlt' := m.interfaceCount.toNat_lt_size
    have hroom : 2 * UInt16.size ≤ maxSize := by decide
    obtain ⟨gap, hmul, (hgap : gap.toNat = position.toNat * 2)⟩ :=
      exists_mul (v := position) (w := 2) (lt_size_of_le (by change position.toNat * 2 ≤ _; omega))
    rw [if_neg (Nat.not_le.mpr hlt), Array.getElem?_eq_getElem hlt, hslot _ hlt, hmul]
    dsimp only [bind, Except.bind]
    have hplace : m.interfaceStart.toNat + gap.toNat =
        m.interfaceStart.toNat + 2 * position.toNat := by omega
    rw [readBehind_of_le hplace (by omega) hb]
    exact .ok rfl
  · rw [if_pos hge, Array.getElem?_eq_none hge, ← hcount, UInt16.ofNat_toNat]
    exact .refused

/-- **The fields agree.** The pool ends inside, so that what is added to its end fits into
words. -/
theorem ofPool_agrees (h : p.Sized) :
    Agrees Class.RunsAs (ofPool p) (ClassFile.ofPool p.toPool) := by
  have hb := h.bytes_le
  rw [ClassFile.ofPool]
  dsimp only
  split
  next hle =>
    change p.stop.toNat + 8 ≤ p.bytes.size at hle
    obtain ⟨start, needed, hstart, hneeded, heq⟩ := ofPool_of_le h hle
    split
    next hlist =>
      have hlist' : needed.toNat ≤ p.bytes.size := by
        rw [hneeded, hstart]
        exact hlist
      rw [heq, require_of_le hlist']
      -- The list of the interfaces lies inside, and has as many slots as are declared.
      have hcount (n : Nat) (f : Fin n → UInt16) : n = (Array.ofFn f).size :=
        Array.size_ofFn.symm
      refine .ok {
        minor_eq := rfl
        major_eq := rfl
        pool_eq := rfl
        access_eq := rfl
        thisClass_eq := rfl
        superClass_eq := rfl
        interfaceCount_eq := hcount _ _
        byteSize := h.byteSize_exact
        get index := Pool.get_agrees hb
        utf8 index := Pool.utf8_agrees hb
        rawClassName index := Pool.rawClassName_agrees hb
        interfaceIndex position := Class.interfaceIndex_agrees hb (hcount _ _) ?_ fun k hk => ?_
        walk := h.walk_agrees }
      · change start.toNat + 2 * (Array.ofFn _).size ≤ p.bytes.size
        rw [Array.size_ofFn, hstart]
        exact hlist
      · dsimp only
        rw [Array.getElem_ofFn]
        simp only [hstart]
        rfl
    next hlist =>
      have hlist' : p.bytes.size < needed.toNat := by
        rw [hneeded, hstart]
        exact Nat.not_le.mp hlist
      rw [heq, require_of_lt hlist', hneeded, hstart]
      exact .refused
  next hlt =>
    change ¬ p.stop.toNat + 8 ≤ p.bytes.size at hlt
    rw [ofPool_of_lt h (Nat.not_le.mp hlt)]
    exact .refused

end Fields

/-! ### A whole class -/

/-- **A class is read exactly in words**: on byte strings of every size that a machine can hold,
no fault is met while the class is read, nor when it is asked anything afterwards. -/
theorem loadClass_runs_exact (hb : b.size ≤ maxSize) :
    Agrees Class.RunsAs (loadClass policy b) (ClassFile.load policy b).value := by
  have hparse : (parse policy b).value = ClassFile.checkStart b >>= fun _ =>
      (ClassFile.Pool.scan policy b).value >>= ClassFile.ofPool := by
    rw [parse]
    split
    next heq => rw [heq]; rfl
    next heq => rw [heq]; rfl
  rw [value_load, hparse]
  refine checkStart_agrees.bind fun _ _ _ => (scan_agrees hb).bind ?_
  rintro p _ ⟨rfl, hp⟩
  exact ofPool_agrees hp

theorem loadClass_runs_exact_wide : wideInLastSlot.bytes.size ≤ maxSize ∧
    ∃ m, loadClass .reject wideInLastSlot.bytes = .ok m ∧
      m.RunsAs wideInLastSlot.toClassFile := by
  have hsize : wideInLastSlot.bytes.size ≤ maxSize := by decide
  have hruns := @loadClass_runs_exact .reject _ hsize
  rw [value_load, Layout.parse_bytes wideInLastSlot_wellFormed] at hruns
  exact ⟨hsize, hruns.exists_of_ok⟩

end ClassRelay.Machine
