import ClassRelay.Proofs.ClassFile.SlotCount

/-!
# Which slots have an entry

Three parts of the library decide whether an entry starts in a slot: the scan, when it fills the
index; the lookup, when it is asked for the slot; and a walk, when it steps over empty slots. They
decide alike (`Pool.AgreesOnSlots`):

* A **walk** meets slots in increasing order, each once, with what the lookup says of it, and what
  it gives in its `k`-th step is the `k`-th of them. So once it gives nothing it never does again.
* The **lookup** finds an entry in the slots that a walk meets and in no others. For the others it
  tells slots without an entry from numbers that are no slot.
* From slot one on, the only slots **without an entry** are those directly behind a wide one.

All of this follows from one fact on each side. An item of a walk is a slot with the entry that
the lookup finds there (`Pool.Indexes.mem_entries_iff`), and entries that fill slots leave none of
them out (`Fills.exists_taking`).
-/

namespace ClassRelay.ClassFile

variable {policy : UnknownTagPolicy} {b : ByteArray} {c : ClassFile} {p : Pool} {es : List Entry}
variable {index : UInt16}

namespace Pool

/-- A walk meets slot `index`. -/
def Meets (p : Pool) (index : UInt16) : Prop :=
  ∃ answer, (index, answer) ∈ p.entries

/-- A walk meets a wide entry in the slot directly before slot `index`. -/
def Shadowed (p : Pool) (index : UInt16) : Prop :=
  ∃ before tag high low,
    (before, .ok (.wide tag high low)) ∈ p.entries ∧ before.toNat + 1 = index.toNat

/-- Walks and lookups agree on the slots of a pool. -/
structure AgreesOnSlots (p : Pool) : Prop where
  /-- A walk meets slots in strictly increasing order. -/
  increasing : p.entries.Pairwise fun item item' => item.1 < item'.1
  /-- With each slot it gives what the lookup says of that slot, which is an entry. -/
  item_eq : ∀ item ∈ p.entries, item.2 = p.get item.1 ∧ ∃ e, item.2 = .ok e
  /-- It meets the slots from one on that are not directly behind a wide entry that it meets. -/
  meets_iff : ∀ index : UInt16, 1 ≤ index.toNat → index.toNat < p.count →
    (p.Meets index ↔ ¬ p.Shadowed index)
  /-- It does not meet slot zero. -/
  not_meets_zero : ¬ p.Meets 0
  /-- The lookup finds an entry in exactly the slots that a walk meets. -/
  get_ok_iff : ∀ index, (∃ e, p.get index = .ok e) ↔ p.Meets index
  /-- In the other slots of the pool there is none. -/
  get_noEntry_iff : ∀ index,
    p.get index = .error (.noEntry index) ↔ index.toNat < p.count ∧ ¬ p.Meets index
  /-- All other numbers are no slots of the pool. -/
  get_noSuchIndex_iff : ∀ index,
    p.get index = .error (.noSuchIndex index p.count) ↔ p.count ≤ index.toNat
  /-- A pool without a slot for an entry is one where a walk meets nothing. -/
  isEmpty_iff : p.isEmpty = true ↔ p.entries = []
  /-- Each step of a walk gives the next item, as long as there is one. -/
  fst_next_after : ∀ k, (p.walk.after k).next.1 = p.entries[k]?
  /-- A walk that has ended never gives anything again. -/
  ended : ∀ k, (p.walk.after k).next.1 = none → ∀ n, (p.walk.after (k + n)).next.1 = none

namespace Indexes

/-! ### What a walk meets -/

theorem meets_iff_exists_get (h : p.Indexes policy es) :
    p.Meets index ↔ ∃ e, p.get index = .ok e := by
  constructor
  · rintro ⟨answer, hmem⟩
    obtain ⟨e, -, hget⟩ := h.mem_entries_iff.mp hmem
    exact ⟨e, hget⟩
  · rintro ⟨e, hget⟩
    exact ⟨.ok e, h.mem_entries_iff.mpr ⟨e, rfl, hget⟩⟩

theorem meets_iff_exists_startsIn (h : p.Indexes policy es) :
    p.Meets index ↔ ∃ e, StartsIn es index e := by
  rw [h.meets_iff_exists_get]
  exact exists_congr fun e => h.get_eq_ok_iff

theorem shadowed_iff (h : p.Indexes policy es) :
    p.Shadowed index ↔ ∃ before e, StartsIn es before e ∧ e.slots = 2 ∧
      before.toNat + 1 = index.toNat := by
  constructor
  · rintro ⟨before, tag, high, low, hmem, hnext⟩
    obtain ⟨e, hitem, hget⟩ := h.mem_entries_iff.mp hmem
    cases hitem
    exact ⟨before, _, h.get_eq_ok_iff.mp hget, rfl, hnext⟩
  · rintro ⟨before, e, hstarts, hwide, hnext⟩
    have hmem : (before, .ok e) ∈ p.entries :=
      h.mem_entries_iff.mpr ⟨e, rfl, h.get_eq_ok_iff.mpr hstarts⟩
    cases e with
    | wide tag high low => exact ⟨before, tag, high, low, hmem, hnext⟩
    | _ => cases hwide

/-- **Every slot is spent.** From slot one on, an entry starts in a slot unless the entry before
takes it. -/
theorem meets_iff_not_shadowed (h : p.Indexes policy es) (hpos : 1 ≤ index.toNat)
    (hlt : index.toNat < p.count) : p.Meets index ↔ ¬ p.Shadowed index := by
  rw [h.meets_iff_exists_startsIn, h.shadowed_iff]
  constructor
  · rintro ⟨e, q, hq, hslot, -⟩ ⟨before, _, ⟨q', hq', hslot', rfl⟩, hwide, hnext⟩
    have hapart := slot_le_or_le_of_mem_place hq' hq
    omega
  · intro hno
    have htaken : ∃ q ∈ places es, q.slot = index.toNat ∨
        (q.entry.slots = 2 ∧ q.slot + 1 = index.toNat) := h.fills.exists_taking hpos hlt
    obtain ⟨q, hq, hslot | ⟨hwide, hslot⟩⟩ := htaken
    · exact ⟨q.entry, q, hq, hslot, rfl⟩
    · have hbefore := h.toNat_ofNat_slot hq
      exact absurd ⟨_, q.entry, ⟨q, hq, hbefore.symm, rfl⟩, hwide, by rw [hbefore, hslot]⟩ hno

theorem not_meets_zero (h : p.Indexes policy es) : ¬ p.Meets 0 := by
  rw [h.meets_iff_exists_startsIn]
  rintro ⟨e, q, hq, hslot, -⟩
  have hle : 1 ≤ q.slot := le_slot_of_mem_place hq
  rw [hslot] at hle
  cases hle

theorem pairwise_entries (h : p.Indexes policy es) :
    p.entries.Pairwise fun item item' => item.1 < item'.1 := by
  rw [h.entries_eq, List.pairwise_map]
  refine List.Pairwise.imp_of_mem (fun {q q'} hq hq' hle => ?_) pairwise_place
  have hone := q.entry.one_le_slots
  rw [Placement.item, Placement.item, UInt16.lt_iff_toNat_lt, h.toNat_ofNat_slot hq,
    h.toNat_ofNat_slot hq']
  omega

/-! ### What the lookup says -/

/-- The lookup has three answers, and a walk tells which one it gives. -/
theorem get_cases_of_meets (h : p.Indexes policy es) (index : UInt16) :
    (p.Meets index ∧ index.toNat < p.count ∧ ∃ e, p.get index = .ok e) ∨
    (¬ p.Meets index ∧ index.toNat < p.count ∧ p.get index = .error (.noEntry index)) ∨
    (¬ p.Meets index ∧ p.count ≤ index.toNat ∧
      p.get index = .error (.noSuchIndex index p.count)) := by
  by_cases hmeets : p.Meets index
  · obtain ⟨e, hget⟩ := h.meets_iff_exists_get.mp hmeets
    exact .inl ⟨hmeets, h.lt_count_of_get hget, e, hget⟩
  · rcases Nat.lt_or_ge index.toNat p.count with hlt | hle
    · refine .inr (.inl ⟨hmeets, hlt, h.get_of_not_startsIn hlt fun e he => ?_⟩)
      exact hmeets (h.meets_iff_exists_startsIn.mpr ⟨e, he⟩)
    · exact .inr (.inr ⟨hmeets, hle, get_of_count_le hle⟩)

theorem get_eq_noEntry_iff (h : p.Indexes policy es) :
    p.get index = .error (.noEntry index) ↔ index.toNat < p.count ∧ ¬ p.Meets index := by
  rcases h.get_cases_of_meets index with ⟨hmeets, -, e, hget⟩ | ⟨hmeets, hlt, hget⟩ |
    ⟨-, hle, hget⟩
  · rw [hget]
    exact iff_of_false (by simp) fun hno => hno.2 hmeets
  · exact iff_of_true hget ⟨hlt, hmeets⟩
  · rw [hget]
    exact iff_of_false (by simp) fun hno => absurd hno.1 (Nat.not_lt.mpr hle)

theorem get_eq_noSuchIndex_iff (h : p.Indexes policy es) :
    p.get index = .error (.noSuchIndex index p.count) ↔ p.count ≤ index.toNat := by
  rcases h.get_cases_of_meets index with ⟨-, hlt, e, hget⟩ | ⟨-, hlt, hget⟩ | ⟨-, hle, hget⟩
  · rw [hget]
    exact iff_of_false (by simp) (Nat.not_le.mpr hlt)
  · rw [hget]
    exact iff_of_false (by simp) (Nat.not_le.mpr hlt)
  · exact iff_of_true hget hle

/-- Entries stand in a pool exactly when it has slots for them. -/
theorem isEmpty_iff (h : p.Indexes policy es) : p.isEmpty = true ↔ p.entries = [] := by
  rw [isEmpty, decide_eq_true_iff, h.entries_eq, List.map_eq_nil_iff]
  cases h.fills with
  | done hle => exact iff_of_true hle rfl
  | step hlt => exact iff_of_false (Nat.not_le.mpr hlt) (by simp [places, place_cons])

theorem agreesOnSlots (h : p.Indexes policy es) : p.AgreesOnSlots where
  increasing := h.pairwise_entries
  item_eq item hitem := by
    obtain ⟨e, hok, hget⟩ := h.mem_entries_iff.mp hitem
    exact ⟨hok.trans hget.symm, e, hok⟩
  meets_iff _ := h.meets_iff_not_shadowed
  not_meets_zero := h.not_meets_zero
  get_ok_iff _ := h.meets_iff_exists_get.symm
  get_noEntry_iff _ := h.get_eq_noEntry_iff
  get_noSuchIndex_iff _ := h.get_eq_noSuchIndex_iff
  isEmpty_iff := h.isEmpty_iff
  fst_next_after := h.fst_next_after
  ended k hend n := by
    rw [h.fst_next_after, List.getElem?_eq_none_iff] at hend ⊢
    omega

end Indexes

end Pool

/-- **Scan, lookup and walk classify every slot alike**, in every accepted class. -/
theorem load_agrees_on_slots (h : (load policy b).value = .ok c) : c.pool.AgreesOnSlots := by
  obtain ⟨es, hindexes⟩ := exists_indexes_of_load h
  exact hindexes.agreesOnSlots

/-- A class with two wide entries, one behind the other, of which the second starts in the last
slot. -/
def wideAfterWide : Layout where
  minor := 0
  major := 65
  count := 5
  entries := [.utf8 ByteArray.empty, .wide .long 0 1, .wide .double 0 0]
  access := ⟨33⟩
  thisClass := 1
  superClass := 0
  interfaces := []
  rest := ByteArray.empty

theorem wideAfterWide_wellFormed : wideAfterWide.WellFormed .reject where
  fills := .step (by decide) (.of_tag?_ne_none (by decide) (by decide))
    (.step (by decide) (.of_tag?_ne_none trivial (by decide))
      (.step (by decide) (.of_tag?_ne_none trivial (by decide)) (.done (by decide))))
  length_lt := by decide

theorem load_agrees_on_slots_wide :
    (load .reject wideAfterWide.bytes).value = .ok wideAfterWide.toClassFile ∧
      wideAfterWide.toClassFile.pool.AgreesOnSlots ∧
      wideAfterWide.toClassFile.pool.get 3 = .error (.noEntry 3) ∧
      wideAfterWide.toClassFile.pool.get 5 = .error (.noSuchIndex 5 5) := by
  have hload := Layout.load_bytes wideAfterWide_wellFormed
  exact ⟨hload, load_agrees_on_slots hload, rfl, rfl⟩

end ClassRelay.ClassFile
