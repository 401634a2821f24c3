import ClassRelay.Proofs.ClassFile.Tiling

/-!
# The slots of a pool add up

The scan goes on as long as a slot is free, whatever the entry before took. So the entries of an
accepted class take the slots from one on, each and no more, with **one exception**: a wide entry
that starts in the last slot is passed like any other, and its second slot is no slot of the
pool. `Pool.Overhangs` is that case. There the slots of the entries add up to one more than there
are (`Pool.Indexes.overhangs_iff`), and the number behind the entry is no slot without an entry
but no slot at all (`Pool.AccountsSlots`).
-/

namespace ClassRelay.ClassFile

variable {policy : UnknownTagPolicy} {b : ByteArray} {c : ClassFile} {p : Pool} {es : List Entry}
variable {count slot offset : Nat}

/-- Entries that fill slots take all of them, and at most one more. -/
theorem Fills.slot_add_slotsAll (hf : Fills policy count slot es) (hle : slot ≤ count) :
    count ≤ slot + Entry.slotsAll es ∧ slot + Entry.slotsAll es ≤ count + 1 := by
  induction hf with
  | done h => exact ⟨h, Nat.le_succ_of_le hle⟩
  | @step slot e es h he hes ih =>
    have htwo := e.slots_le_two
    rw [Entry.slotsAll_cons, ← Nat.add_assoc]
    rcases Nat.lt_or_ge count (slot + e.slots) with hover | hfits
    · -- The slots are used up, so this was the last entry.
      cases hes with
      | done => exact ⟨Nat.le_of_lt hover, by rw [Entry.slotsAll_nil]; omega⟩
      | step hlt => omega
    · exact ih hfits

/-- If entries take one slot more than there are, the last of them is wide and starts in the last
slot. -/
theorem Fills.exists_wide_of_slotsAll (hf : Fills policy count slot es) (hle : slot ≤ count)
    (hover : slot + Entry.slotsAll es = count + 1) :
    ∃ q ∈ place slot offset es, q.entry.slots = 2 ∧ q.slot + 1 = count := by
  induction hf generalizing offset with
  | done h => rw [Entry.slotsAll_nil] at hover; omega
  | @step slot e es h he hes ih =>
    have htwo := e.slots_le_two
    rw [Entry.slotsAll_cons, ← Nat.add_assoc] at hover
    rw [place_cons]
    rcases Nat.lt_or_ge count (slot + e.slots) with hlast | hfits
    · exact ⟨_, List.mem_cons_self, by dsimp only; omega, by dsimp only; omega⟩
    · obtain ⟨q, hq, hwide⟩ := ih hfits hover
      exact ⟨q, List.mem_cons_of_mem _ hq, hwide⟩

namespace Pool

/-- A wide entry starts in the last slot. -/
def Overhangs (p : Pool) : Prop :=
  ∃ index e, p.get index = .ok e ∧ e.slots = 2 ∧ index.toNat + 1 = p.count

/-- How the slots of a pool are spent on its entries. -/
structure AccountsSlots (p : Pool) (es : List Entry) : Prop where
  /-- The entries are those that a walk meets. -/
  items : p.entries.map Prod.snd = es.map .ok
  /-- Slot zero and the slots of the entries are all slots. -/
  exact_fit : ¬ p.Overhangs → 1 + Entry.slotsAll es = p.count
  /-- With a wide entry in the last slot they are one more. -/
  overhang : p.Overhangs → 1 + Entry.slotsAll es = p.count + 1
  /-- The second slot of a wide entry has no entry. -/
  shadow : ∀ index e, p.get index = .ok e → e.slots = 2 → index.toNat + 1 < p.count →
    p.get (index + 1) = .error (.noEntry (index + 1))
  /-- Behind a wide entry in the last slot there is no slot. -/
  beyond : ∀ index e, p.get index = .ok e → e.slots = 2 → index.toNat + 1 = p.count →
    p.get (index + 1) = .error (.noSuchIndex (index + 1) p.count)
  /-- No entry starts behind the last slot, so for a wide entry there is no third case. -/
  lt_count : ∀ index e, p.get index = .ok e → index.toNat < p.count

theorem get_of_count_le {index : UInt16} (h : p.count ≤ index.toNat) :
    p.get index = .error (.noSuchIndex index p.count) := by
  have hnone : p.offsets[index.toNat]? = none := Array.getElem?_eq_none_iff.mpr h
  rw [get, offset, hnone]
  rfl

namespace Indexes

theorem lt_count_of_get (h : p.Indexes policy es) {index : UInt16} {e : Entry}
    (hget : p.get index = .ok e) : index.toNat < p.count := by
  obtain ⟨q, hq, hslot, -⟩ := h.get_eq_ok_iff.mp hget
  rw [← hslot]
  exact (h.fills.of_mem_place hq).2

theorem overhangs_iff (h : p.Indexes policy es) (hcount : 1 ≤ p.count) :
    p.Overhangs ↔ 1 + Entry.slotsAll es = p.count + 1 := by
  obtain ⟨-, hle⟩ := h.fills.slot_add_slotsAll hcount
  constructor
  · rintro ⟨index, e, hget, hwide, hlast⟩
    have hslots := (h.get_eq_ok_iff.mp hget).add_slots_le
    omega
  · intro hover
    obtain ⟨q, hq, hwide, hlast⟩ := h.fills.exists_wide_of_slotsAll hcount hover
    exact ⟨_, q.entry, h.get_of_mem hq, hwide, by rw [h.toNat_ofNat_slot hq, hlast]⟩

theorem accountsSlots (h : p.Indexes policy es) (hcount : 1 ≤ p.count)
    (hitems : p.entries.map Prod.snd = es.map .ok) : p.AccountsSlots es where
  items := hitems
  exact_fit hfit := by
    obtain ⟨hge, hle⟩ := h.fills.slot_add_slotsAll hcount
    rw [h.overhangs_iff hcount] at hfit
    omega
  overhang := (h.overhangs_iff hcount).mp
  shadow _ _ hget hwide hlt := h.get_shadow (h.get_eq_ok_iff.mp hget) hwide hlt
  beyond index e hget hwide hlast := by
    have hlt := h.count_lt
    refine get_of_count_le ?_
    rw [UInt16.toNat_add, UInt16.toNat_one]
    omega
  lt_count _ _ := h.lt_count_of_get

end Indexes

end Pool

/-- **The slots add up**, but for a wide entry in the last slot. -/
theorem load_accounts_slots (h : (load policy b).value = .ok c) (hcount : 1 ≤ c.pool.count) :
    ∃ es : List Entry, c.pool.AccountsSlots es := by
  rw [value_load] at h
  obtain ⟨l, hl, -, rfl⟩ := Layout.parse_eq_ok_iff.mp h
  exact ⟨l.entries, hl.indexes.accountsSlots hcount hl.tiles.items⟩

/-- A class with one slot for entries, and a wide entry in it. -/
def wideInLastSlot : Layout where
  minor := 0
  major := 65
  count := 2
  entries := [.wide .long 0 1]
  access := ⟨33⟩
  thisClass := 1
  superClass := 0
  interfaces := []
  rest := ByteArray.empty

theorem wideInLastSlot_wellFormed : wideInLastSlot.WellFormed .reject where
  fills := .step (by decide) (.of_tag?_ne_none trivial (by decide)) (.done (by decide))
  length_lt := by decide

theorem load_accounts_slots_wide :
    (load .reject wideInLastSlot.bytes).value = .ok wideInLastSlot.toClassFile ∧
      1 ≤ wideInLastSlot.toClassFile.pool.count ∧
      ∃ es : List Entry, wideInLastSlot.toClassFile.pool.AccountsSlots es := by
  have hload : (load .reject wideInLastSlot.bytes).value = .ok wideInLastSlot.toClassFile :=
    value_load.trans (Layout.parse_bytes wideInLastSlot_wellFormed)
  exact ⟨hload, by decide, load_accounts_slots hload (by decide)⟩

/-- In this class the slots do not add up, and the slot behind the wide entry is not one without
an entry. -/
theorem load_wide_in_last_slot : ∃ c,
    (load .reject ⟨#[0xCA, 0xFE, 0xBA, 0xBE, 0, 0, 0, 65, 0, 2, 5, 0, 0, 0, 0, 0, 0, 0, 1,
      0, 33, 0, 1, 0, 0, 0, 0]⟩).value = .ok c ∧
    1 ≤ c.pool.count ∧
    (∀ es : List Entry, c.pool.entries.map Prod.snd = es.map .ok →
      1 + Entry.slotsAll es ≠ c.pool.count) ∧
    c.pool.get 1 = .ok (.wide .long 0 1) ∧ c.pool.get 2 = .error (.noSuchIndex 2 2) := by
  have hl := wideInLastSlot_wellFormed
  have hbytes : wideInLastSlot.bytes = ⟨#[0xCA, 0xFE, 0xBA, 0xBE, 0, 0, 0, 65, 0, 2, 5, 0, 0, 0, 0,
    0, 0, 0, 1, 0, 33, 0, 1, 0, 0, 0, 0]⟩ := by decide
  refine ⟨wideInLastSlot.toClassFile, ?_, by decide, fun es hes => ?_, rfl, rfl⟩
  · rw [value_load, ← hbytes]
    exact Layout.parse_bytes hl
  · have heq : wideInLastSlot.entries = es := by
      rw [hl.tiles.items] at hes
      exact (List.map_inj_right fun _ _ => Except.ok.inj).mp hes
    rw [← heq]
    decide

end ClassRelay.ClassFile
