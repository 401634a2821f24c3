import ClassRelay.ClassFile.Pool.Cursor
import ClassRelay.Proofs.ClassFile.Pool.Index

/-!
# Walking placed entries

A walk over a pool steps through the slots and knows nothing of the entries that fill them. Over
an index it meets exactly those entries, each once and in order, with the slot it is placed in
(`Pool.Indexes.entries_eq`). The invariant of the walk is that the slots in front of it, from
its position on, are those of the entries still to come: `Pool.Cursor.Faces`, which every step
keeps (`Faces.next_nil`, `Faces.next_cons`), so that it holds after any number of them
(`Pool.Cursor.exists_faces_after`).
-/

namespace ClassRelay.ClassFile

/-- What a walk says of a placed entry. -/
def Placement.item (q : Placement) : UInt16 × Except ClassError Entry :=
  (UInt16.ofNat q.slot, .ok q.entry)

namespace Pool

variable {policy : UnknownTagPolicy} {p : Pool} {es : List Entry}
variable {offsets : Array (Option Nat)} {position slot offset : Nat}

/-! ### One step -/

/-- Empty slots are stepped over, up to the first one where an entry starts. -/
theorem nextSlot_eq {o : Nat} (hle : position ≤ slot)
    (hempty : ∀ s, position ≤ s → s < slot → offsets[s]? = some none)
    (hslot : offsets[slot]? = some (some o)) : nextSlot offsets position = slot := by
  obtain ⟨hlt, hget⟩ := Array.getElem?_eq_some_iff.mp hslot
  fun_induction nextSlot offsets position with
  | case1 position h o' ho' =>
    rcases Nat.eq_or_lt_of_le hle with heq | hbelow
    · exact heq
    · have hnone := hempty position (Nat.le_refl _) hbelow
      rw [Array.getElem?_eq_getElem h, ho'] at hnone
      cases hnone
  | case2 position h hnone ih =>
    have hne : position ≠ slot := by
      rintro rfl
      rw [hnone] at hget
      cases hget
    exact ih (by omega) fun s hs => hempty s (by omega)
  | case3 position h => omega

/-- An empty slot is stepped over. -/
theorem nextSlot_of_empty (h : offsets[position]? = some none) :
    nextSlot offsets position = nextSlot offsets (position + 1) := by
  obtain ⟨hlt, hget⟩ := Array.getElem?_eq_some_iff.mp h
  rw [nextSlot, dif_pos hlt, hget]

/-- Where only empty slots are left, a walk ends. -/
theorem size_le_nextSlot
    (hempty : ∀ s, position ≤ s → s < offsets.size → offsets[s]? = some none) :
    offsets.size ≤ nextSlot offsets position := by
  fun_induction nextSlot offsets position with
  | case1 position h o ho =>
    have hnone := hempty position (Nat.le_refl _) h
    rw [Array.getElem?_eq_getElem h, ho] at hnone
    cases hnone
  | case2 position h hnone ih => exact ih fun s hs => hempty s (by omega)
  | case3 position h => omega

/-- The slot that a walk stops at, before the end, is one where an entry starts. -/
theorem getElem?_nextSlot (h : nextSlot offsets position < offsets.size) :
    ∃ o, offsets[nextSlot offsets position]? = some (some o) := by
  fun_induction nextSlot offsets position with
  | case1 position hlt o ho => exact ⟨o, by rw [Array.getElem?_eq_getElem hlt, ho]⟩
  | case2 position hlt hnone ih => exact ih h
  | case3 position hle => exact absurd h hle

namespace Cursor

theorem next_of_lt {c : Cursor} (hslot : nextSlot c.pool.offsets c.position = slot)
    (hlt : slot < c.pool.count) : c.next =
      (some (UInt16.ofNat slot, c.pool.get (UInt16.ofNat slot)), ⟨c.pool, slot + 1⟩) := by
  rw [next, hslot]
  exact if_pos hlt

theorem next_of_le {c : Cursor} (hle : c.pool.count ≤ nextSlot c.pool.offsets c.position) :
    c.next = (none, ⟨c.pool, nextSlot c.pool.offsets c.position⟩) := by
  rw [next]
  exact if_neg (Nat.not_lt.mpr hle)

theorem entriesFrom_of_next_some {c c' : Cursor} {item : UInt16 × Except ClassError Entry}
    {items : Array (UInt16 × Except ClassError Entry)} (h : c.next = (some item, c')) :
    c.entriesFrom items = c'.entriesFrom (items.push item) := by
  rw [entriesFrom]
  split
  next h' =>
    cases h.symm.trans h'
    rfl
  next h' => cases h.symm.trans h'

theorem entriesFrom_of_next_none {c c' : Cursor}
    {items : Array (UInt16 × Except ClassError Entry)} (h : c.next = (none, c')) :
    c.entriesFrom items = items := by
  rw [entriesFrom]
  split
  next h' => cases h.symm.trans h'
  next h' => rfl

end Cursor

/-! ### The whole walk -/

namespace Cursor

/-- A walk over the index of the entries `all` has the entries `es` in front of it, the first of
them in `slot` and at `offset`: the slots from its position on are those of these entries. -/
structure Faces (policy : UnknownTagPolicy) (all : List Entry) (c : Cursor) (slot offset : Nat)
    (es : List Entry) : Prop where
  indexes : c.pool.Indexes policy all
  fills : Fills policy c.pool.count slot es
  le_slot : c.position ≤ slot
  /-- The position lags behind the slot by one at most: behind a wide entry it does. -/
  slot_le : slot ≤ c.position + 1
  mem : ∀ q ∈ place slot offset es, q ∈ places all
  rows : ∀ s, c.position ≤ s → offsetIn (places all) s = offsetIn (place slot offset es) s

/-- Every walk starts in front of all entries. -/
theorem faces_walk (h : p.Indexes policy es) : p.walk.Faces policy es 1 poolStart es where
  indexes := h
  fills := h.fills
  le_slot := Nat.le_refl 1
  slot_le := Nat.le_succ 1
  mem _ hq := hq
  rows _ _ := rfl

namespace Faces

variable {all : List Entry} {c : Cursor} {e : Entry}

/-- **A step at the end.** With no entry in front of it, a walk finds none and stays at the end. -/
theorem next_nil (h : c.Faces policy all slot offset []) :
    c.next = (none, ⟨c.pool, nextSlot c.pool.offsets c.position⟩) ∧
      Faces policy all ⟨c.pool, nextSlot c.pool.offsets c.position⟩
        (nextSlot c.pool.offsets c.position) offset [] := by
  have hle := le_nextSlot c.pool.offsets c.position
  have hend : c.pool.count ≤ nextSlot c.pool.offsets c.position := by
    refine size_le_nextSlot fun s hs hlt => ?_
    rw [h.indexes.getElem?_offsets hlt, h.rows s hs]
    rfl
  exact ⟨next_of_le hend, h.indexes, .done hend, Nat.le_refl _, Nat.le_succ _,
    fun _ hq => absurd hq List.not_mem_nil, fun s hs => h.rows s (Nat.le_trans hle hs)⟩

/-- **A step at an entry.** A walk finds the first entry in front of it and passes it. -/
theorem next_cons (h : c.Faces policy all slot offset (e :: es)) :
    c.next = (some (UInt16.ofNat slot, .ok e), ⟨c.pool, slot + 1⟩) ∧
      Faces policy all ⟨c.pool, slot + 1⟩ (slot + e.slots) (offset + e.encode.size) es := by
  have hpos := h.le_slot
  have hone := e.one_le_slots
  have htwo := e.slots_le_two
  obtain _ | ⟨hlt, -, hes⟩ := h.fills
  have hnext : nextSlot c.pool.offsets c.position = slot := by
    refine nextSlot_eq (o := offset) h.le_slot (fun s hs hs' => ?_) ?_
    · rw [h.indexes.getElem?_offsets (by omega), h.rows s hs, offsetIn_place_of_lt hs']
    · rw [h.indexes.getElem?_offsets hlt, h.rows slot h.le_slot, place_cons]
      exact congrArg some offsetIn_cons_self
  have hget : c.pool.get (UInt16.ofNat slot) = .ok e :=
    h.indexes.get_of_mem (h.mem _ List.mem_cons_self)
  have hstep := next_of_lt hnext hlt
  rw [hget] at hstep
  refine ⟨hstep, h.indexes, hes, ?_, ?_, fun q hq => h.mem q (List.mem_cons_of_mem _ hq),
    fun s hs => ?_⟩
  · dsimp only
    omega
  · dsimp only
    omega
  · dsimp only at hs
    rw [h.rows s (by omega), place_cons, offsetIn_cons_of_ne (show slot ≠ s by omega)]

/-- **The invariant of a walk.** A walk meets the entries in front of it. -/
theorem entriesFrom_eq (h : c.Faces policy all slot offset es)
    (items : Array (UInt16 × Except ClassError Entry)) :
    (c.entriesFrom items).toList = items.toList ++ (place slot offset es).map Placement.item := by
  induction es generalizing c slot offset items with
  | nil =>
    rw [entriesFrom_of_next_none h.next_nil.1]
    simp
  | cons e es ih =>
    obtain ⟨hstep, htail⟩ := h.next_cons
    rw [entriesFrom_of_next_some hstep, ih htail, place_cons, List.map_cons, Placement.item]
    simp

/-- The item of a step is the first one in front of the walk. -/
theorem fst_next (h : c.Faces policy all slot offset es) :
    c.next.1 = ((place slot offset es).map Placement.item).head? := by
  cases es with
  | nil => rw [h.next_nil.1]; rfl
  | cons e es => rw [h.next_cons.1]; rfl

end Faces

/-! ### After any number of steps -/

/-- The walk after `k` more steps, whether they give an entry or not. -/
def after (c : Cursor) : Nat → Cursor
  | 0 => c
  | k + 1 => (c.after k).next.2

/-- After `k` steps, a walk is in front of all entries but the first `k`, in their places. -/
theorem exists_faces_drop (h : p.Indexes policy es) (k : Nat) :
    ∃ slot offset, (p.walk.after k).Faces policy es slot offset (es.drop k) ∧
      place slot offset (es.drop k) = (places es).drop k := by
  induction k with
  | zero => exact ⟨1, poolStart, faces_walk h, rfl⟩
  | succ k ih =>
    obtain ⟨slot, offset, hfaces, hplace⟩ := ih
    rw [after, ← List.tail_drop, ← List.tail_drop, ← hplace]
    cases hrest : es.drop k with
    | nil =>
      rw [hrest] at hfaces
      obtain ⟨hstep, hend⟩ := hfaces.next_nil
      rw [hstep]
      exact ⟨_, offset, hend, rfl⟩
    | cons e rest =>
      rw [hrest] at hfaces
      obtain ⟨hstep, htail⟩ := hfaces.next_cons
      rw [hstep]
      exact ⟨_, _, htail, rfl⟩

/-- Whatever the number of steps, a walk is in front of some of the entries. -/
theorem exists_faces_after (h : p.Indexes policy es) (k : Nat) :
    ∃ slot offset rest, (p.walk.after k).Faces policy es slot offset rest := by
  obtain ⟨slot, offset, hfaces, -⟩ := exists_faces_drop h k
  exact ⟨slot, offset, _, hfaces⟩

end Cursor

/-- **A walk meets the placed entries**, each once and in order. -/
theorem Indexes.entries_eq (h : p.Indexes policy es) :
    p.entries = (places es).map Placement.item := by
  rw [entries, (Cursor.faces_walk h).entriesFrom_eq]
  rfl

/-- The items of a walk are the slots that the lookup finds an entry in, with that entry. -/
theorem Indexes.mem_entries_iff (h : p.Indexes policy es)
    {item : UInt16 × Except ClassError Entry} :
    item ∈ p.entries ↔ ∃ e, item.2 = .ok e ∧ p.get item.1 = .ok e := by
  rw [h.entries_eq, List.mem_map]
  constructor
  · rintro ⟨q, hq, rfl⟩
    exact ⟨q.entry, rfl, h.get_of_mem hq⟩
  · rintro ⟨e, hitem, hget⟩
    obtain ⟨q, hq, hslot, rfl⟩ := h.get_eq_ok_iff.mp hget
    refine ⟨q, hq, Prod.ext ?_ hitem.symm⟩
    rw [Placement.item, hslot, UInt16.ofNat_toNat]

/-- The item of the `k`-th step is the `k`-th of all. -/
theorem Indexes.fst_next_after (h : p.Indexes policy es) (k : Nat) :
    (p.walk.after k).next.1 = p.entries[k]? := by
  obtain ⟨slot, offset, hfaces, hplace⟩ := Cursor.exists_faces_drop h k
  rw [hfaces.fst_next, hplace, h.entries_eq, List.map_drop, List.head?_drop]

end Pool

end ClassRelay.ClassFile
