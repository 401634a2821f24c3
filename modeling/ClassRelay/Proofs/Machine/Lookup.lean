import ClassRelay.Proofs.ClassFile.Pool.Walk
import ClassRelay.Proofs.Machine.Read

/-!
# Lookups and walks on a machine

The index of a pool as a machine keeps it: a table of words, in which **zero** marks a slot that
no entry starts in. `Pool.toPool` is the pool that such a table stands for.

Lookups look whether a slot is in the table. A walk does not: it takes words out of the table
because its position is below the number of slots, and it narrows the position to a slot number.
Both agree with the lookups and walks on natural numbers, for **every** table that has at most as
many slots as there are slot numbers (`Pool.get_agrees`, `Pool.utf8_agrees`, `Cursor.next_agrees`).
-/

namespace ClassRelay.Machine

open ClassFile

/-- The offset that a word of the table stands for, if an entry starts in its slot. -/
def slotOffset (w : UInt64) : Option Nat :=
  if w = 0 then none else some w.toNat

/-- The index of a pool, in words. -/
structure Pool where
  bytes : ByteArray
  /-- For each slot, the offset of the entry that starts there, or zero. -/
  offsets : Array UInt64
  stop : UInt64

namespace Pool

variable {p : Pool} {index : UInt16}

/-- The pool that the words stand for. -/
def toPool (p : Pool) : ClassFile.Pool where
  bytes := p.bytes
  offsets := p.offsets.map slotOffset
  stop := p.stop.toNat

/-- The bytes that the entries take. -/
def byteSize (p : Pool) : Run UInt64 :=
  sub p.stop 10

/-! ### Lookups -/

/-- The offset of the entry in a slot. -/
def offset (p : Pool) (index : UInt16) : Run UInt64 :=
  match p.offsets[index.toNat]? with
  | some w => if w = 0 then .error (.refused (.noEntry index)) else .ok w
  | none => .error (.refused (.noSuchIndex index p.offsets.size))

/-- The tag at an offset, which stands for slot `index`. -/
def tagAt (p : Pool) (index : UInt16) (offset : UInt64) : Run Tag := do
  let number ← readU8 p.bytes offset
  match Tag.ofNumber? number with
  | some tag => return tag
  | none => throw (.refused (.opaqueEntry index number))

/-- The entry in a slot. -/
def get (p : Pool) (index : UInt16) : Run Entry := do
  decode p.bytes (← p.offset index)

/-- The offset of the entry in a slot, which must have the expected tag. -/
def expect (p : Pool) (index : UInt16) (expected : Tag) : Run UInt64 := do
  let offset ← p.offset index
  let actual ← p.tagAt index offset
  if actual = expected then return offset else throw (.refused (.wrongTag expected actual))

/-- The bytes of the text in a slot. -/
def utf8 (p : Pool) (index : UInt16) : Run ByteArray := do
  readText p.bytes (← p.expect index .utf8)

/-- The bytes of the name that the class entry in a slot refers to. -/
def rawClassName (p : Pool) (index : UInt16) : Run ByteArray := do
  let offset ← p.expect index .classRef
  p.utf8 (← readU16 p.bytes (← add offset 1))

theorem offset_agrees :
    Agrees (fun w o => w.toNat = o) (p.offset index) (p.toPool.offset index) := by
  rw [offset, ClassFile.Pool.offset, ClassFile.Pool.count, toPool, Array.getElem?_map,
    Array.size_map]
  cases p.offsets[index.toNat]? with
  | none => exact .refused
  | some w =>
    dsimp only [Option.map, slotOffset]
    by_cases hzero : w = 0
    · rw [if_pos hzero, if_pos hzero]
      exact .refused
    · rw [if_neg hzero, if_neg hzero]
      exact .ok rfl

/-- **Lookups agree.** -/
theorem get_agrees (hb : p.bytes.size ≤ maxSize) :
    Agrees Eq (p.get index) (p.toPool.get index) := by
  refine offset_agrees.bind ?_
  rintro w _ rfl
  exact decode_agrees hb

theorem tagAt_agrees (hb : p.bytes.size ≤ maxSize) {offset : UInt64} :
    Agrees (fun tag tag' => tag = tag' ∧ offset.toNat < p.bytes.size) (p.tagAt index offset)
      (p.toPool.tagAt index offset.toNat) := by
  refine (readU8_agrees hb).bind ?_
  rintro number _ ⟨rfl, hlt⟩
  cases Tag.ofNumber? number with
  | none => exact .refused
  | some tag => exact .ok ⟨rfl, hlt⟩

/-- An entry with the expected tag starts inside. -/
theorem expect_agrees (hb : p.bytes.size ≤ maxSize) {expected : Tag} :
    Agrees (fun w o => w.toNat = o ∧ w.toNat < p.bytes.size) (p.expect index expected)
      (p.toPool.expect index expected) := by
  refine offset_agrees.bind ?_
  rintro w _ rfl
  refine (tagAt_agrees hb).bind ?_
  rintro actual _ ⟨rfl, hlt⟩
  by_cases htag : actual = expected
  · rw [if_pos htag, if_pos htag]
    exact .ok ⟨rfl, hlt⟩
  · rw [if_neg htag, if_neg htag]
    exact .refused

theorem utf8_agrees (hb : p.bytes.size ≤ maxSize) :
    Agrees Eq (p.utf8 index) (p.toPool.utf8 index) := by
  refine (expect_agrees hb).bind ?_
  rintro w _ ⟨rfl, hlt⟩
  exact readText_agrees (by omega) hb

theorem rawClassName_agrees (hb : p.bytes.size ≤ maxSize) :
    Agrees Eq (p.rawClassName index) (p.toPool.rawClassName index) := by
  refine (expect_agrees hb).bind ?_
  rintro w _ ⟨rfl, hlt⟩
  obtain ⟨name, hadd, (hname : name.toNat = w.toNat + 1)⟩ :=
    exists_add_of_le (v := w) (w := 1) (by omega) (by decide)
  rw [hadd, ← hname]
  refine (readU16_agrees hb).bind ?_
  rintro nameIndex _ rfl
  exact utf8_agrees hb

end Pool

/-! ### Walks -/

/-- A position in the slots of a pool. -/
structure Cursor where
  pool : Pool
  position : UInt64

/-- A walk over the entries of a pool, at its start. -/
def Pool.walk (p : Pool) : Cursor := ⟨p, 1⟩

/-- The first slot from `position` on where an entry starts, or the end. -/
def nextSlot (offsets : Array UInt64) (position : UInt64) : Run UInt64 :=
  if position.toNat < offsets.size then
    match load offsets position with
    | .error stop => .error stop
    | .ok w =>
      if w = 0 then
        match _h : add position 1 with
        | .error stop => .error stop
        | .ok next => nextSlot offsets next
      else .ok position
  else .ok position
termination_by offsets.size - position.toNat
decreasing_by
  have hnext : next.toNat = position.toNat + 1 := add_eq_ok_iff.mp _h
  omega

namespace Cursor

/-- The walk that the words stand for. -/
def toCursor (w : Cursor) : ClassFile.Pool.Cursor := ⟨w.pool.toPool, w.position.toNat⟩

/-- The next entry with its slot number, and the walk behind it. -/
def next (w : Cursor) : Run (Option (UInt16 × Run Entry) × Cursor) := do
  let slot ← nextSlot w.pool.offsets w.position
  if slot.toNat < w.pool.offsets.size then
    let index ← narrow slot
    let behind ← add slot 1
    return (some (index, w.pool.get index), ⟨w.pool, behind⟩)
  else return (none, ⟨w.pool, slot⟩)

/-- The walk after `k` more steps, whether they give an entry or not. -/
def after (w : Cursor) : Nat → Run Cursor
  | 0 => .ok w
  | k + 1 => do
    let before ← w.after k
    let (_, behind) ← before.next
    return behind

/-- Steps of two walks give items that agree, or none, and lead to the same place. -/
structure SameStep (s : Option (UInt16 × Run Entry) × Cursor)
    (t : Option (UInt16 × Except ClassError Entry) × ClassFile.Pool.Cursor) : Prop where
  item : Option.Rel (fun x y => x.1 = y.1 ∧ Agrees Eq x.2 y.2) s.1 t.1
  toCursor_eq : s.2.toCursor = t.2

end Cursor

section Walks

variable {offsets : Array UInt64} {position w : UInt64}

private theorem getElem?_map_slotOffset (h : load offsets position = .ok w) :
    (offsets.map slotOffset)[position.toNat]? = some (slotOffset w) := by
  rw [load] at h
  split at h
  next hlt =>
    cases h
    rw [Array.getElem?_map, Array.getElem?_eq_getElem hlt]
    rfl
  next => cases h

/-- **A walk steps over empty slots exactly.** It takes no word from behind the table, and its
position never leaves the words. -/
theorem nextSlot_exact (hsize : offsets.size < UInt64.size) :
    ∃ slot, nextSlot offsets position = .ok slot ∧
      slot.toNat = ClassFile.Pool.nextSlot (offsets.map slotOffset) position.toNat := by
  fun_induction nextSlot offsets position with
  | case1 position h stop hload => cases (load_of_lt h).symm.trans hload
  | case2 position h stop hadd hload =>
    obtain ⟨next, hnext, -⟩ := exists_add (v := position) (w := 1) (Nat.lt_of_le_of_lt h hsize)
    cases hnext.symm.trans hadd
  | case3 position h next hadd hload ih =>
    have hnext : next.toNat = position.toNat + 1 := add_eq_ok_iff.mp hadd
    obtain ⟨slot, hslot, heq⟩ := ih
    rw [hnext] at heq
    refine ⟨slot, hslot, heq.trans (ClassFile.Pool.nextSlot_of_empty ?_).symm⟩
    exact getElem?_map_slotOffset hload
  | case4 position h w hload hzero =>
    have hstart := getElem?_map_slotOffset hload
    rw [slotOffset, if_neg hzero] at hstart
    exact ⟨position, rfl, (ClassFile.Pool.nextSlot_eq (Nat.le_refl _)
      (fun s hs hs' => absurd hs (Nat.not_le.mpr hs')) hstart).symm⟩
  | case5 position h =>
    refine ⟨position, rfl, ?_⟩
    rw [ClassFile.Pool.nextSlot, dif_neg (by rw [Array.size_map]; exact h)]

namespace Cursor

variable {c : Cursor}

/-- **Steps of a walk agree**, wherever the walk is. -/
theorem next_agrees (hb : c.pool.bytes.size ≤ maxSize)
    (hsize : c.pool.offsets.size ≤ UInt16.size) :
    ∃ s, c.next = .ok s ∧ s.2.pool = c.pool ∧ SameStep s c.toCursor.next := by
  have hword : UInt16.size < UInt64.size := by decide
  have hexact := @nextSlot_exact _ c.position (Nat.lt_of_le_of_lt hsize hword)
  obtain ⟨slot, hslot, (heq : slot.toNat =
    ClassFile.Pool.nextSlot c.toCursor.pool.offsets c.toCursor.position)⟩ := hexact
  have hcount : c.toCursor.pool.count = c.pool.offsets.size := Array.size_map
  rw [next, hslot]
  dsimp only [bind, Except.bind]
  by_cases hlt : slot.toNat < c.pool.offsets.size
  · obtain ⟨behind, hadd, (hbehind : behind.toNat = slot.toNat + 1)⟩ :=
      exists_add (v := slot) (w := 1) (Nat.lt_of_le_of_lt hlt (Nat.lt_of_le_of_lt hsize hword))
    have hnarrow : narrow slot = .ok (UInt16.ofNat slot.toNat) :=
      if_pos (Nat.lt_of_lt_of_le hlt hsize)
    rw [if_pos hlt, hnarrow, hadd, ClassFile.Pool.Cursor.next_of_lt heq.symm (hcount ▸ hlt)]
    refine ⟨_, rfl, rfl, .some ⟨rfl, Pool.get_agrees hb⟩, ?_⟩
    rw [toCursor, hbehind]
    rfl
  · have hend : c.toCursor.pool.count ≤
        ClassFile.Pool.nextSlot c.toCursor.pool.offsets c.toCursor.position := by
      rw [hcount, ← heq]
      exact Nat.not_lt.mp hlt
    rw [if_neg hlt, ClassFile.Pool.Cursor.next_of_le hend, ← heq]
    exact ⟨_, rfl, rfl, .none, rfl⟩

/-- **Walks agree** after any number of steps. -/
theorem after_agrees (hb : c.pool.bytes.size ≤ maxSize)
    (hsize : c.pool.offsets.size ≤ UInt16.size) (k : Nat) :
    ∃ w, c.after k = .ok w ∧ w.pool = c.pool ∧ w.toCursor = c.toCursor.after k := by
  induction k with
  | zero => exact ⟨c, rfl, rfl, rfl⟩
  | succ k ih =>
    obtain ⟨w, hafter, hpool, hw⟩ := ih
    rw [← hpool] at hb hsize
    obtain ⟨s, hnext, hpool', hsame⟩ := w.next_agrees hb hsize
    refine ⟨s.2, ?_, hpool'.trans hpool, ?_⟩
    · rw [after, hafter]
      dsimp only [bind, Except.bind]
      rw [hnext]
      rfl
    · rw [hsame.toCursor_eq, hw, ClassFile.Pool.Cursor.after]

end Cursor

end Walks

end ClassRelay.Machine
