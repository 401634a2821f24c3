import ClassRelay.ClassFile.Pool.Lookup

/-!
# Walking a pool

A `Pool.Cursor` walks the slots from one on and stops at those where an entry starts.
`Cursor.next` steps over slots without an entry and gives the entry that it meets, with its slot
number; a walk that met none stands at the end from then on. `Cursor.bounds` is a guess at the
number of entries that are still to come, made from the number of slots alone.
-/

namespace ClassRelay.ClassFile.Pool

/-- A position in the slots of a pool. -/
structure Cursor where
  pool : Pool
  position : Nat
  deriving DecidableEq

/-- A walk over the entries of a pool, at its start. -/
def walk (p : Pool) : Cursor := ⟨p, 1⟩

/-- The first slot from `position` on where an entry starts, or the end. -/
def nextSlot (offsets : Array (Option Nat)) (position : Nat) : Nat :=
  if h : position < offsets.size then
    match offsets[position] with
    | some _ => position
    | none => nextSlot offsets (position + 1)
  else position
termination_by offsets.size - position

theorem le_nextSlot (offsets : Array (Option Nat)) (position : Nat) :
    position ≤ nextSlot offsets position := by
  fun_induction nextSlot offsets position with
  | case1 => exact Nat.le_refl _
  | case2 _ _ _ ih => omega
  | case3 => exact Nat.le_refl _

namespace Cursor

/-- The slots still to be walked. -/
def remaining (c : Cursor) : Nat := c.pool.count - c.position

/-- The fewest and the most entries that may still come, if every one of them is wide and if
none is. -/
def bounds (c : Cursor) : Nat × Nat := ((c.remaining + 1) / 2, c.remaining)

/-- The next entry with its slot number, and the walk behind it. -/
def next (c : Cursor) : Option (UInt16 × Except ClassError Entry) × Cursor :=
  let slot := nextSlot c.pool.offsets c.position
  if slot < c.pool.count then
    let index := UInt16.ofNat slot
    (some (index, c.pool.get index), ⟨c.pool, slot + 1⟩)
  else (none, ⟨c.pool, slot⟩)

/-- A step that gives an entry leaves fewer slots. -/
theorem remaining_next {c c' : Cursor} {item : UInt16 × Except ClassError Entry}
    (h : c.next = (some item, c')) : c'.remaining < c.remaining := by
  have hle := le_nextSlot c.pool.offsets c.position
  simp only [next] at h
  split at h
  next hlt =>
    simp only [Prod.mk.injEq] at h
    obtain ⟨-, rfl⟩ := h
    simp only [remaining]
    omega
  next => simp at h

/-- Walks to the end, behind the entries already met. -/
def entriesFrom (c : Cursor) (entries : Array (UInt16 × Except ClassError Entry)) :
    Array (UInt16 × Except ClassError Entry) :=
  match _h : c.next with
  | (some item, c') => entriesFrom c' (entries.push item)
  | (none, _) => entries
termination_by c.remaining
decreasing_by exact remaining_next _h

end Cursor

/-- The entries of a pool with their slot numbers, in order. -/
def entries (p : Pool) : List (UInt16 × Except ClassError Entry) :=
  (p.walk.entriesFrom #[]).toList

end ClassRelay.ClassFile.Pool
