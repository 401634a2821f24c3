import ClassRelay.Proofs.ClassFile.SlotCount

/-!
# How many entries a walk still meets

`Pool.Cursor.bounds` tells, from the number of slots left alone, how many entries a walk will
still meet: at most as many as there are slots, and at least half as many, rounded **up**.

The upper bound always holds. The lower one is right wherever an entry starts in the slot that
the walk has reached. Behind a wide entry it has reached the second slot of that entry, where none
starts, and which counts as a slot left all the same. The bound is then too high by one if every
other slot left is taken by wide entries, and in no other case: `Pool.Cursor.BoundsHold` says so of
every state that a walk can be in.
-/

namespace ClassRelay.ClassFile

variable {policy : UnknownTagPolicy} {b : ByteArray} {c : ClassFile} {es : List Entry}
variable {count slot offset : Nat}

/-- Entries that fill slots are not more than these. -/
theorem Fills.length_le (hf : Fills policy count slot es) : es.length ≤ count - slot := by
  induction hf with
  | done h => exact Nat.zero_le _
  | @step slot e es h he hes ih =>
    have hone := e.one_le_slots
    rw [List.length_cons]
    omega

theorem Entry.slotsAll_le : Entry.slotsAll es ≤ 2 * es.length := by
  induction es with
  | nil => exact Nat.le_refl 0
  | cons e es ih =>
    have htwo := e.slots_le_two
    rw [slotsAll_cons, List.length_cons]
    omega

/-- Entries that fill slots are at least half as many. -/
theorem Fills.le_two_mul_length (hf : Fills policy count slot es) :
    count - slot ≤ 2 * es.length := by
  have hslots := @Entry.slotsAll_le es
  rcases Nat.lt_or_ge count slot with hlt | hle
  · omega
  · have hall := (hf.slot_add_slotsAll hle).1
    omega

namespace Pool.Cursor

variable {all : List Entry}

/-- The number of entries that a walk still meets. -/
def itemsLeft (w : Cursor) : Nat :=
  (w.entriesFrom #[]).size

/-- A walk has reached a slot that no entry starts in: the second slot of a wide entry. -/
def OnShadow (w : Cursor) : Prop :=
  w.pool.offsets[w.position]? = some none

/-- How far the bounds of a walk can be relied upon. -/
structure BoundsHold (w : Cursor) : Prop where
  /-- There are never more entries than the upper bound says. -/
  itemsLeft_le : w.itemsLeft ≤ w.bounds.2
  /-- In front of an entry and at the end, there are never fewer than the lower bound says. -/
  le_itemsLeft : ¬ w.OnShadow → w.bounds.1 ≤ w.itemsLeft
  /-- There are fewer exactly if, behind the second slot of a wide entry, all slots that are left
  are taken by wide entries, two for each. -/
  itemsLeft_lt_iff : w.itemsLeft < w.bounds.1 ↔ w.OnShadow ∧ w.remaining = 1 + 2 * w.itemsLeft

namespace Faces

variable {w : Cursor}

theorem itemsLeft_eq (h : w.Faces policy all slot offset es) : w.itemsLeft = es.length := by
  rw [itemsLeft, ← Array.length_toList, h.entriesFrom_eq #[], List.nil_append, List.length_map,
    ← List.length_map Placement.entry, map_entry_place]

/-- A walk that lags behind its first entry has reached a shadow, unless it is at the end. -/
theorem onShadow_iff (h : w.Faces policy all slot offset es) :
    w.OnShadow ↔ w.position < slot ∧ w.position < w.pool.count := by
  rw [OnShadow]
  rcases Nat.lt_or_ge w.position w.pool.count with hlt | hge
  · rw [h.indexes.getElem?_offsets hlt, h.rows _ (Nat.le_refl _), Option.some.injEq]
    rcases Nat.eq_or_lt_of_le h.le_slot with heq | hbelow
    · -- The walk stands in front of its first entry, and there is one.
      obtain hend | ⟨-, he, hes⟩ := h.fills
      · omega
      · rw [heq, place_cons, offsetIn_cons_self]
        simp
    · exact iff_of_true (offsetIn_place_of_lt hbelow) ⟨hbelow, hlt⟩
  · rw [Array.getElem?_eq_none_iff.mpr hge]
    exact iff_of_false (by simp) fun hboth => absurd hboth.2 (Nat.not_lt.mpr hge)

theorem boundsHold (h : w.Faces policy all slot offset es) : w.BoundsHold := by
  have hlength := h.fills.length_le
  have hhalf := h.fills.le_two_mul_length
  have hlag := h.slot_le
  have hfront := h.le_slot
  refine ⟨?_, fun hshadow => ?_, ?_⟩
  all_goals simp only [bounds, remaining, h.itemsLeft_eq]
  · omega
  · rw [h.onShadow_iff] at hshadow
    omega
  · rw [h.onShadow_iff]
    omega

end Faces

end Pool.Cursor

/-- **The bounds of a walk**, after any number of steps through the pool of an accepted class. -/
theorem load_bounds_entries_left (h : (load policy b).value = .ok c) (k : Nat) :
    (c.pool.walk.after k).BoundsHold := by
  rw [value_load] at h
  obtain ⟨l, hl, -, rfl⟩ := Layout.parse_eq_ok_iff.mp h
  obtain ⟨slot, offset, rest, hfaces⟩ := Pool.Cursor.exists_faces_after hl.indexes k
  exact hfaces.boundsHold

/-- A class with one entry, which is wide, and both its slots. -/
def wideWithShadow : Layout where
  minor := 0
  major := 65
  count := 3
  entries := [.wide .long 0 1]
  access := ⟨33⟩
  thisClass := 1
  superClass := 0
  interfaces := []
  rest := ByteArray.empty

theorem wideWithShadow_wellFormed : wideWithShadow.WellFormed .reject where
  fills := .step (by decide) (.of_tag?_ne_none trivial (by decide)) (.done (by decide))
  length_lt := by decide

theorem load_bounds_entries_left_wide :
    (load .reject wideWithShadow.bytes).value = .ok wideWithShadow.toClassFile ∧
      (wideWithShadow.toClassFile.pool.walk.after 1).BoundsHold := by
  have hload : (load .reject wideWithShadow.bytes).value = .ok wideWithShadow.toClassFile :=
    value_load.trans (Layout.parse_bytes wideWithShadow_wellFormed)
  exact ⟨hload, load_bounds_entries_left hload 1⟩

/-- In this class a walk that has met the entry is told that one is still to come, and there is
none. -/
theorem load_overestimates_behind_wide : ∃ c,
    (load .reject ⟨#[0xCA, 0xFE, 0xBA, 0xBE, 0, 0, 0, 65, 0, 3, 5, 0, 0, 0, 0, 0, 0, 0, 1,
      0, 33, 0, 1, 0, 0, 0, 0]⟩).value = .ok c ∧
    (c.pool.walk.after 1).bounds = (1, 1) ∧ (c.pool.walk.after 1).itemsLeft = 0 := by
  have hl := wideWithShadow_wellFormed
  have hbytes : wideWithShadow.bytes = ⟨#[0xCA, 0xFE, 0xBA, 0xBE, 0, 0, 0, 65, 0, 3, 5, 0, 0, 0, 0,
    0, 0, 0, 1, 0, 33, 0, 1, 0, 0, 0, 0]⟩ := by decide
  obtain ⟨hstep, hend⟩ := (Pool.Cursor.faces_walk hl.indexes).next_cons
  refine ⟨wideWithShadow.toClassFile, ?_, ?_⟩
  · rw [value_load, ← hbytes]
    exact Layout.parse_bytes hl
  · rw [Pool.Cursor.after, Pool.Cursor.after, hstep]
    exact ⟨by decide, hend.itemsLeft_eq⟩

end ClassRelay.ClassFile
