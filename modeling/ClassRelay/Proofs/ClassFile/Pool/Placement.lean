import ClassRelay.ClassFile.Pool.Basic
import ClassRelay.Proofs.ClassFile.EntryCodec

/-!
# Entries in their places

A constant pool is a list of entries that fill its slots from one on. This module says where
each of them stands, with no scan involved:

* `Fills` is the rule by which entries **fill slots**: they are laid one behind the other until
  the next free slot is not below the declared count. The last one may be wide and overhang.
* `place` gives every entry its **slot and offset**. No entry starts in a slot that another one
  takes (`slot_le_or_le_of_mem_place`), and the entries stand at their offsets whenever their
  written forms stand in the bytes (`holdsAt_of_mem_place`).
* `Pool.ofEntries` is **the index** that belongs to a list of entries, and `Fills.unique` says
  that bytes hold at most one list that fills the slots.
-/

namespace ClassRelay.ClassFile

variable {b : ByteArray} {policy policy' : UnknownTagPolicy}
variable {count slot offset : Nat} {e : Entry} {es es' : List Entry}

/-- The written forms of entries, one behind the other. -/
def Entry.encodeAll (es : List Entry) : ByteArray :=
  Buffers.join (es.map Entry.encode)

@[simp] theorem Entry.encodeAll_nil : Entry.encodeAll [] = ByteArray.empty := rfl

@[simp] theorem Entry.encodeAll_cons :
    Entry.encodeAll (e :: es) = e.encode ++ Entry.encodeAll es := rfl

theorem Entry.encodeAll_append :
    Entry.encodeAll (es ++ es') = Entry.encodeAll es ++ Entry.encodeAll es' := by
  induction es with
  | nil => simp
  | cons e es ih =>
    rw [List.cons_append, encodeAll_cons, encodeAll_cons, ih, ByteArray.append_assoc]

/-- The number of slots that entries take. -/
def Entry.slotsAll : List Entry → Nat
  | [] => 0
  | e :: es => e.slots + slotsAll es

@[simp] theorem Entry.slotsAll_nil : Entry.slotsAll [] = 0 := rfl

@[simp] theorem Entry.slotsAll_cons :
    Entry.slotsAll (e :: es) = e.slots + Entry.slotsAll es := rfl

@[simp] theorem Entry.slotsAll_append :
    Entry.slotsAll (es ++ es') = Entry.slotsAll es + Entry.slotsAll es' := by
  induction es with
  | nil => exact (Nat.zero_add _).symm
  | cons e es ih => rw [List.cons_append, slotsAll_cons, slotsAll_cons, ih, Nat.add_assoc]

theorem Entry.one_le_slots (e : Entry) : 1 ≤ e.slots := by
  cases e <;> exact Nat.le_of_ble_eq_true rfl

theorem Entry.slots_le_two (e : Entry) : e.slots ≤ 2 := by
  cases e <;> exact Nat.le_of_ble_eq_true rfl

/-! ### Filling slots -/

/-- The entries fill the slots from `slot` on, each behind the one before, until the next free
slot is not below `count`. -/
inductive Fills (policy : UnknownTagPolicy) (count : Nat) : Nat → List Entry → Prop
  /-- No slot is left. -/
  | done {slot : Nat} (h : count ≤ slot) : Fills policy count slot []
  /-- The first entry starts in the first free slot. -/
  | step {slot : Nat} {e : Entry} {es : List Entry} (h : slot < count) (he : e.Allowed policy)
      (hes : Fills policy count (slot + e.slots) es) : Fills policy count slot (e :: es)

/-- Bytes hold at most one list of entries that fills the slots, under any policy. -/
theorem Fills.unique (hf : Fills policy count slot es) (hf' : Fills policy' count slot es')
    (hb : HoldsAt b offset (Entry.encodeAll es)) (hb' : HoldsAt b offset (Entry.encodeAll es')) :
    es = es' := by
  induction hf generalizing offset es' with
  | done h =>
    cases hf' with
    | done => rfl
    | step h' => omega
  | step h he hes ih =>
    -- Both lists go on, so their first entries stand at one place and the others behind it.
    cases hf' with
    | done h' => omega
    | step h' he' hes' =>
      obtain ⟨hhead, htail⟩ := holdsAt_append.mp hb
      obtain ⟨hhead', htail'⟩ := holdsAt_append.mp hb'
      have heq := Entry.encode_unique he.representable he'.representable hhead hhead'
      subst heq
      rw [ih hes' htail htail']

/-- Entries that take exactly the slots up to the count fill them. -/
theorem fills_of_slotsAll (h : ∀ e ∈ es, e.Allowed policy)
    (hslots : slot + Entry.slotsAll es = count) : Fills policy count slot es := by
  induction es generalizing slot with
  | nil => exact .done (by rw [← hslots]; exact Nat.le_refl _)
  | cons e es ih =>
    have hone := e.one_le_slots
    rw [Entry.slotsAll_cons] at hslots
    exact .step (by omega) (h e List.mem_cons_self)
      (ih (fun e' he' => h e' (List.mem_cons_of_mem _ he')) (by omega))

/-- Where entries are left, so are slots. -/
theorem Fills.lt_of_ne_nil (hf : Fills policy count slot es) (h : es ≠ []) : slot < count := by
  cases hf with
  | done => exact absurd rfl h
  | step hlt => exact hlt

/-- Entries with known tags fill slots under every policy. -/
theorem Fills.of_tag?_ne_none (hf : Fills policy count slot es)
    (hknown : ∀ e ∈ es, e.tag? ≠ none) : Fills policy' count slot es := by
  induction hf with
  | done h => exact .done h
  | @step slot e es h he hes ih =>
    obtain ⟨hhead, htail⟩ := List.forall_mem_cons.mp hknown
    exact .step h (.of_tag?_ne_none he.representable hhead) (ih htail)

/-- The written forms of entries that fill slots are not longer than as many longest texts. -/
theorem Fills.size_encodeAll_le (hf : Fills policy count slot es) :
    (Entry.encodeAll es).size ≤ 65538 * (count - slot) := by
  induction hf with
  | done h => exact Nat.zero_le _
  | @step slot e es h he hes ih =>
    have hone := e.one_le_slots
    have hpayload := Entry.size_payload_le he.representable
    rw [Entry.encodeAll_cons, ByteArray.size_append, Entry.size_encode]
    omega

/-! ### Slots and offsets -/

/-- An entry with the slot it starts in and the offset it starts at. -/
structure Placement where
  slot : Nat
  offset : Nat
  entry : Entry
  deriving DecidableEq

/-- The places of entries that are laid one behind the other, from a slot and an offset on. -/
def place (slot offset : Nat) : List Entry → List Placement
  | [] => []
  | e :: es => ⟨slot, offset, e⟩ :: place (slot + e.slots) (offset + e.encode.size) es

@[simp] theorem place_nil : place slot offset [] = [] := rfl

theorem place_cons : place slot offset (e :: es) =
    ⟨slot, offset, e⟩ :: place (slot + e.slots) (offset + e.encode.size) es := rfl

theorem map_entry_place : (place slot offset es).map Placement.entry = es := by
  induction es generalizing slot offset with
  | nil => rfl
  | cons e es ih => rw [place_cons, List.map_cons, ih]

/-- An entry starts behind the slots and the bytes of the entries before it. -/
theorem getElem?_place {k : Nat} (hk : k < es.length) : (place slot offset es)[k]? =
    some ⟨slot + Entry.slotsAll (es.take k), offset + (Entry.encodeAll (es.take k)).size,
      es[k]⟩ := by
  induction es generalizing slot offset k with
  | nil => cases hk
  | cons e es ih =>
    rw [place_cons]
    cases k with
    | zero => simp
    | succ k =>
      rw [List.getElem?_cons_succ, ih (Nat.lt_of_succ_lt_succ hk), List.take_succ_cons,
        Entry.encodeAll_cons, ByteArray.size_append, Entry.slotsAll_cons, List.getElem_cons_succ,
        Nat.add_assoc, Nat.add_assoc]

/-- A placed entry stands behind the entries before it. -/
theorem exists_append_of_mem_place {q : Placement} (h : q ∈ place slot offset es) :
    ∃ front rest, es = front ++ q.entry :: rest ∧ q.slot = slot + Entry.slotsAll front := by
  induction es generalizing slot offset with
  | nil => cases h
  | cons e es ih =>
    rw [place_cons, List.mem_cons] at h
    rcases h with rfl | h
    · exact ⟨[], es, rfl, rfl⟩
    · obtain ⟨front, rest, rfl, hslot⟩ := ih h
      exact ⟨e :: front, rest, rfl, by rw [hslot, Entry.slotsAll_cons, Nat.add_assoc]⟩

theorem le_slot_of_mem_place {q : Placement} (h : q ∈ place slot offset es) : slot ≤ q.slot := by
  induction es generalizing slot offset with
  | nil => cases h
  | cons e es ih =>
    rw [place_cons, List.mem_cons] at h
    rcases h with rfl | h
    · exact Nat.le_refl _
    · exact Nat.le_of_add_right_le (ih h)

/-- The slots of all entries reach as far as those of each. -/
theorem slot_add_slots_le_of_mem_place {q : Placement} (h : q ∈ place slot offset es) :
    q.slot + q.entry.slots ≤ slot + Entry.slotsAll es := by
  induction es generalizing slot offset with
  | nil => cases h
  | cons e es ih =>
    rw [place_cons, List.mem_cons] at h
    rw [Entry.slotsAll_cons, ← Nat.add_assoc]
    rcases h with rfl | h
    · exact Nat.le_add_right _ _
    · exact ih h

/-- Entries that are laid behind others go on where those end. -/
theorem place_append : place slot offset (es ++ es') = place slot offset es ++
    place (slot + Entry.slotsAll es) (offset + (Entry.encodeAll es).size) es' := by
  induction es generalizing slot offset with
  | nil => rfl
  | cons e es ih =>
    rw [List.cons_append, place_cons, ih, place_cons, List.cons_append, Entry.slotsAll_cons,
      Entry.encodeAll_cons, ByteArray.size_append, Nat.add_assoc, Nat.add_assoc]

/-- No entry starts in a slot that another one takes. -/
theorem slot_le_or_le_of_mem_place {q q' : Placement} (h : q ∈ place slot offset es)
    (h' : q' ∈ place slot offset es) :
    q'.slot ≤ q.slot ∨ q.slot + q.entry.slots ≤ q'.slot := by
  induction es generalizing slot offset with
  | nil => cases h
  | cons e es ih =>
    rw [place_cons, List.mem_cons] at h h'
    rcases h with rfl | h
    · rcases h' with rfl | h'
      · exact .inl (Nat.le_refl _)
      · exact .inr (le_slot_of_mem_place h')
    · rcases h' with rfl | h'
      · exact .inl (Nat.le_of_add_right_le (le_slot_of_mem_place h))
      · exact ih h h'

/-- Entries are laid in the order of their slots, each behind all slots of the one before. -/
theorem pairwise_place :
    (place slot offset es).Pairwise fun q q' => q.slot + q.entry.slots ≤ q'.slot := by
  induction es generalizing slot offset with
  | nil => exact .nil
  | cons e es ih =>
    rw [place_cons]
    exact .cons (fun q hq => le_slot_of_mem_place hq) ih

/-- Every entry stands at its offset. -/
theorem holdsAt_of_mem_place {q : Placement} (hb : HoldsAt b offset (Entry.encodeAll es))
    (h : q ∈ place slot offset es) : HoldsAt b q.offset q.entry.encode := by
  induction es generalizing slot offset with
  | nil => cases h
  | cons e es ih =>
    obtain ⟨hhead, htail⟩ := holdsAt_append.mp hb
    rw [place_cons, List.mem_cons] at h
    rcases h with rfl | h
    · exact hhead
    · exact ih htail h

/-- Every entry that fills slots is allowed and starts below the count. -/
theorem Fills.of_mem_place {q : Placement} (hf : Fills policy count slot es)
    (h : q ∈ place slot offset es) : q.entry.Allowed policy ∧ q.slot < count := by
  induction hf generalizing offset with
  | done => cases h
  | step hlt he hes ih =>
    rw [place_cons, List.mem_cons] at h
    rcases h with rfl | h
    · exact ⟨he, hlt⟩
    · exact ih h

/-- Entries that fill slots leave none out: one starts there, or is wide and starts in the slot
before. -/
theorem Fills.exists_taking (hf : Fills policy count slot es) {s : Nat} (hle : slot ≤ s)
    (hlt : s < count) :
    ∃ q ∈ place slot offset es, q.slot = s ∨ (q.entry.slots = 2 ∧ q.slot + 1 = s) := by
  induction hf generalizing offset with
  | done h => omega
  | @step slot e es h he hes ih =>
    have htwo := e.slots_le_two
    rw [place_cons]
    rcases Nat.lt_or_ge s (slot + e.slots) with hhere | hbehind
    · refine ⟨_, List.mem_cons_self, ?_⟩
      dsimp only
      omega
    · obtain ⟨q, hq, htaking⟩ := ih hbehind
      exact ⟨q, List.mem_cons_of_mem _ hq, htaking⟩

/-! ### The index -/

/-- The offset of the entry that starts in a slot, if one does. -/
def offsetIn (places : List Placement) (slot : Nat) : Option Nat :=
  (places.find? fun q => q.slot = slot).map Placement.offset

@[simp] theorem offsetIn_cons_self {q : Placement} {places : List Placement} :
    offsetIn (q :: places) q.slot = some q.offset := by
  rw [offsetIn, List.find?_cons_of_pos (by simp)]
  rfl

theorem offsetIn_cons_of_ne {q : Placement} {places : List Placement} {s : Nat}
    (h : q.slot ≠ s) : offsetIn (q :: places) s = offsetIn places s := by
  rw [offsetIn, List.find?_cons_of_neg (by simpa using h)]
  rfl

/-- No entry starts below the first slot. -/
theorem offsetIn_place_of_lt {s : Nat} (h : s < slot) :
    offsetIn (place slot offset es) s = none := by
  rw [offsetIn, Option.map_eq_none_iff, List.find?_eq_none]
  intro q hq
  have hle := le_slot_of_mem_place hq
  simp only [decide_eq_true_eq]
  omega

/-- An offset belongs to a slot exactly when an entry is placed there. -/
theorem offsetIn_place_eq_some_iff {s o : Nat} :
    offsetIn (place slot offset es) s = some o ↔
      ∃ q ∈ place slot offset es, q.slot = s ∧ q.offset = o := by
  constructor
  · intro h
    obtain ⟨q, hq, rfl⟩ := Option.map_eq_some_iff.mp h
    exact ⟨q, List.mem_of_find?_eq_some hq, by simpa using List.find?_some hq, rfl⟩
  · rintro ⟨q, hq, rfl, rfl⟩
    induction es generalizing slot offset with
    | nil => cases hq
    | cons e es ih =>
      rw [place_cons, List.mem_cons] at hq
      rcases hq with rfl | hq
      · exact offsetIn_cons_self
      · have hle := le_slot_of_mem_place hq
        have hone := e.one_le_slots
        rw [place_cons, offsetIn_cons_of_ne (show slot ≠ q.slot by omega)]
        exact ih hq

/-- The index over entries that stand in `b` from the start of the pool on. -/
def Pool.ofEntries (b : ByteArray) (count : Nat) (es : List Entry) : Pool where
  bytes := b
  offsets := ((List.range count).map (offsetIn (place 1 poolStart es))).toArray
  stop := poolStart + (Entry.encodeAll es).size

namespace Pool

@[simp] theorem bytes_ofEntries : (ofEntries b count es).bytes = b := rfl

@[simp] theorem stop_ofEntries :
    (ofEntries b count es).stop = poolStart + (Entry.encodeAll es).size := rfl

@[simp] theorem count_ofEntries : (ofEntries b count es).count = count := by
  simp [Pool.count, ofEntries]

@[simp] theorem byteSize_ofEntries :
    (ofEntries b count es).byteSize = (Entry.encodeAll es).size := by
  rw [byteSize, stop_ofEntries, Nat.add_sub_cancel_left]

theorem getElem?_offsets_ofEntries {s : Nat} (h : s < count) :
    (ofEntries b count es).offsets[s]? = some (offsetIn (place 1 poolStart es) s) := by
  simp [ofEntries, h]

end Pool

end ClassRelay.ClassFile
