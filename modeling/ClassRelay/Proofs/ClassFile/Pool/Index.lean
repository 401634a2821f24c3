import ClassRelay.ClassFile.Pool.Lookup
import ClassRelay.Proofs.ClassFile.Pool.Placement

/-!
# Looking up placed entries

`Pool.Indexes policy p es` says that a pool is the index of the entries `es`. It is the invariant
that every accepted class comes with, and all that the lookups need:

* the untyped lookup gives **the entry that is placed** in a slot, and nothing else
  (`Pool.Indexes.get_eq_ok_iff`);
* the typed lookups, which read the bytes on their own, say **the same as the untyped one**
  (`Pool.Indexes.tag_eq`, `Pool.Indexes.utf8_eq`, `Pool.Indexes.rawClassName_eq`).
-/

namespace ClassRelay.ClassFile

variable {policy : UnknownTagPolicy} {p : Pool} {es : List Entry}

/-- The places of the entries of a pool. -/
def places (es : List Entry) : List Placement :=
  place 1 poolStart es

theorem map_entry_places : (places es).map Placement.entry = es :=
  map_entry_place

theorem exists_mem_places {e : Entry} (h : e ∈ es) : ∃ q ∈ places es, q.entry = e := by
  rw [← @map_entry_places es] at h
  exact List.mem_map.mp h

theorem entry_mem_of_mem_places {q : Placement} (h : q ∈ places es) : q.entry ∈ es := by
  rw [← @map_entry_places es]
  exact List.mem_map_of_mem h

theorem getElem?_places {k : Nat} (hk : k < es.length) : (places es)[k]? =
    some ⟨1 + Entry.slotsAll (es.take k), poolStart + (Entry.encodeAll (es.take k)).size, es[k]⟩ :=
  getElem?_place hk

/-- The entry `e` is the one that starts in slot `index`, among entries that are laid from slot
one on. -/
def StartsIn (es : List Entry) (index : UInt16) (e : Entry) : Prop :=
  ∃ q ∈ places es, q.slot = index.toNat ∧ q.entry = e

/-- Entries that are laid behind others leave these in their slots. -/
theorem StartsIn.append_right {es es' : List Entry} {index : UInt16} {e : Entry}
    (h : StartsIn es index e) : StartsIn (es ++ es') index e := by
  obtain ⟨q, hq, hslot, he⟩ := h
  refine ⟨q, ?_, hslot, he⟩
  rw [places, place_append, List.mem_append]
  exact .inl hq

/-- An entry that is laid behind others starts in the slot that they leave free. -/
theorem startsIn_append_singleton {es : List Entry} {index : UInt16} {e : Entry}
    (h : index.toNat = 1 + Entry.slotsAll es) : StartsIn (es ++ [e]) index e := by
  refine ⟨⟨_, poolStart + (Entry.encodeAll es).size, e⟩, ?_, h.symm, rfl⟩
  rw [places, place_append, List.mem_append]
  exact .inr List.mem_cons_self

theorem StartsIn.add_slots_le {es : List Entry} {index : UInt16} {e : Entry}
    (h : StartsIn es index e) : index.toNat + e.slots ≤ 1 + Entry.slotsAll es := by
  obtain ⟨q, hq, hslot, rfl⟩ := h
  rw [← hslot]
  exact slot_add_slots_le_of_mem_place hq

/-- A pool that is the index of entries which fill its slots. -/
structure Pool.Indexes (policy : UnknownTagPolicy) (p : Pool) (es : List Entry) : Prop where
  count_lt : p.count < 65536
  fills : Fills policy p.count 1 es
  holdsAt : HoldsAt p.bytes poolStart (Entry.encodeAll es)
  eq_ofEntries : p = Pool.ofEntries p.bytes p.count es

/-! ### Questions to an entry -/

namespace Entry

/-- The tag of the entry in slot `index`. -/
def asTag (index : UInt16) (e : Entry) : Except ClassError Tag :=
  match e.tag? with
  | some tag => .ok tag
  | none => .error (.opaqueEntry index e.number)

/-- The text that the entry in slot `index` must be. -/
def asUtf8 (index : UInt16) : Entry → Except ClassError ByteArray
  | utf8 text => .ok text
  | e => (e.asTag index).bind fun actual => .error (.wrongTag .utf8 actual)

/-- The slot of the name of the class that the entry in slot `index` must be. -/
def asClassRef (index : UInt16) : Entry → Except ClassError UInt16
  | classRef nameIndex => .ok nameIndex
  | e => (e.asTag index).bind fun actual => .error (.wrongTag .classRef actual)

end Entry

namespace Pool.Indexes

variable {index : UInt16}

/-! ### Slots -/

theorem stop_eq (h : p.Indexes policy es) : p.stop = poolStart + (Entry.encodeAll es).size := by
  rw [h.eq_ofEntries]
  rfl

theorem getElem?_offsets (h : p.Indexes policy es) {s : Nat} (hs : s < p.count) :
    p.offsets[s]? = some (offsetIn (places es) s) := by
  rw [h.eq_ofEntries]
  exact getElem?_offsets_ofEntries hs

/-- The slots of placed entries are slot numbers. -/
theorem toNat_ofNat_slot (h : p.Indexes policy es) {q : Placement} (hq : q ∈ places es) :
    (UInt16.ofNat q.slot).toNat = q.slot := by
  have hlt := (h.fills.of_mem_place hq).2
  have hcount := h.count_lt
  rw [UInt16.toNat_ofNat']
  omega

/-- A slot leads to an offset exactly when an entry is placed there. -/
theorem offset_eq_ok_iff (h : p.Indexes policy es) {o : Nat} :
    p.offset index = .ok o ↔ ∃ q ∈ places es, q.slot = index.toNat ∧ q.offset = o := by
  rw [offset]
  by_cases hs : index.toNat < p.count
  · rw [h.getElem?_offsets hs]
    have hiff := @offsetIn_place_eq_some_iff 1 poolStart es index.toNat o
    rw [places, ← hiff]
    cases offsetIn (place 1 poolStart es) index.toNat with
    | none => simp
    | some o' => simp
  · have hnone : p.offsets[index.toNat]? = none :=
      Array.getElem?_eq_none_iff.mpr (Nat.not_lt.mp hs)
    rw [hnone]
    refine iff_of_false (by simp) ?_
    rintro ⟨q, hq, hslot, -⟩
    exact hs (hslot ▸ (h.fills.of_mem_place hq).2)

/-- Behind the offset of a slot stands an entry. -/
theorem exists_decode (h : p.Indexes policy es) {o : Nat} (ho : p.offset index = .ok o) :
    ∃ e, Entry.decode p.bytes o = .ok e := by
  obtain ⟨q, hq, -, rfl⟩ := h.offset_eq_ok_iff.mp ho
  exact ⟨q.entry, Entry.decode_eq_ok_iff.mpr
    ⟨(h.fills.of_mem_place hq).1.representable, holdsAt_of_mem_place h.holdsAt hq⟩⟩

/-- **The entry in a slot is the one that is placed there.** -/
theorem get_eq_ok_iff (h : p.Indexes policy es) {e : Entry} :
    p.get index = .ok e ↔ StartsIn es index e := by
  rw [get, bind_eq_ok_iff, StartsIn]
  constructor
  · -- What is decoded is written at the offset, and so is the entry that is placed there.
    rintro ⟨o, ho, he⟩
    obtain ⟨q, hq, hslot, rfl⟩ := h.offset_eq_ok_iff.mp ho
    obtain ⟨hrep, hb⟩ := Entry.decode_eq_ok_iff.mp he
    exact ⟨q, hq, hslot, Entry.encode_unique (h.fills.of_mem_place hq).1.representable hrep
      (holdsAt_of_mem_place h.holdsAt hq) hb⟩
  · rintro ⟨q, hq, hslot, rfl⟩
    exact ⟨q.offset, h.offset_eq_ok_iff.mpr ⟨q, hq, hslot, rfl⟩, Entry.decode_eq_ok_iff.mpr
      ⟨(h.fills.of_mem_place hq).1.representable, holdsAt_of_mem_place h.holdsAt hq⟩⟩

/-- A slot of the pool in which no entry starts has no entry. -/
theorem get_of_not_startsIn (h : p.Indexes policy es) (hlt : index.toNat < p.count)
    (hnone : ∀ e, ¬ StartsIn es index e) : p.get index = .error (.noEntry index) := by
  have hempty : offsetIn (places es) index.toNat = none := by
    refine Option.eq_none_iff_forall_not_mem.mpr fun o ho => ?_
    obtain ⟨q, hq, hslot, -⟩ := offsetIn_place_eq_some_iff.mp ho
    exact hnone q.entry ⟨q, hq, hslot, rfl⟩
  have hoffset : p.offset index = .error (.noEntry index) := by
    rw [offset, h.getElem?_offsets hlt, hempty]
  rw [get, hoffset]
  rfl

/-- The second slot of a wide entry has no entry, if it is a slot of the pool. -/
theorem get_shadow (h : p.Indexes policy es) {e : Entry} (he : StartsIn es index e)
    (hwide : e.slots = 2) (hlt : index.toNat + 1 < p.count) :
    p.get (index + 1) = .error (.noEntry (index + 1)) := by
  obtain ⟨q, hq, hslot, rfl⟩ := he
  have hindex : (index + 1).toNat = index.toNat + 1 := by
    have hcount := h.count_lt
    rw [UInt16.toNat_add, UInt16.toNat_one]
    omega
  refine h.get_of_not_startsIn (by omega) ?_
  rintro e ⟨q', hq', hslot', -⟩
  have hapart := slot_le_or_le_of_mem_place hq hq'
  omega

/-- The slot of a placed entry leads to its offset. -/
theorem offset_of_mem (h : p.Indexes policy es) {q : Placement} (hq : q ∈ places es) :
    p.offset (UInt16.ofNat q.slot) = .ok q.offset :=
  h.offset_eq_ok_iff.mpr ⟨q, hq, (h.toNat_ofNat_slot hq).symm, rfl⟩

/-- A placed entry is found under the number of its slot. -/
theorem get_of_mem (h : p.Indexes policy es) {q : Placement} (hq : q ∈ places es) :
    p.get (UInt16.ofNat q.slot) = .ok q.entry :=
  h.get_eq_ok_iff.mpr ⟨q, hq, (h.toNat_ofNat_slot hq).symm, rfl⟩

/-! ### Typed lookups -/

/-- What is known of the bytes behind a slot: there is no entry, and all lookups fail alike, or
there is one, and it stands at the offset of the slot. -/
private theorem get_cases (h : p.Indexes policy es) (index : UInt16) :
    (∃ error, p.offset index = .error error ∧ p.get index = .error error) ∨
    ∃ o e, p.offset index = .ok o ∧ p.get index = .ok e ∧ e.Representable ∧
      HoldsAt p.bytes o e.encode := by
  cases ho : p.offset index with
  | error error => exact .inl ⟨error, rfl, by rw [get, ho]; rfl⟩
  | ok o =>
    obtain ⟨e, he⟩ := h.exists_decode ho
    obtain ⟨hrep, hb⟩ := Entry.decode_eq_ok_iff.mp he
    exact .inr ⟨o, e, rfl, by rw [get, ho]; exact he, hrep, hb⟩

/-- The tag byte in front of an entry tells its tag. -/
private theorem tagAt_eq {o : Nat} {e : Entry} (hrep : e.Representable)
    (hb : HoldsAt p.bytes o e.encode) : p.tagAt index o = e.asTag index := by
  rw [tagAt, readU8_eq_ok_iff.mpr (holdsAt_append.mp hb).1, Entry.asTag]
  dsimp only [bind, Except.bind]
  rw [Entry.ofNumber?_number hrep]
  cases e.tag? <;> rfl

/-- The tag of a slot is that of its entry. -/
theorem tag_eq (h : p.Indexes policy es) (index : UInt16) :
    p.tag index = p.get index >>= Entry.asTag index := by
  rcases h.get_cases index with ⟨error, ho, hget⟩ | ⟨o, e, ho, hget, hrep, hb⟩
  · rw [tag, ho, hget]
    rfl
  · rw [tag, ho, hget]
    exact tagAt_eq hrep hb

/-- The text of a slot is its entry, if that is a text. -/
theorem utf8_eq (h : p.Indexes policy es) (index : UInt16) :
    p.utf8 index = p.get index >>= Entry.asUtf8 index := by
  rcases h.get_cases index with ⟨error, ho, hget⟩ | ⟨o, e, ho, hget, hrep, hb⟩
  · rw [utf8, expect, ho, hget]
    rfl
  · rw [utf8, expect, ho, hget]
    dsimp only [bind, Except.bind]
    rw [tagAt_eq hrep hb]
    cases e with
    | utf8 text => exact Entry.readText_eq_ok_iff.mpr ⟨hrep, (holdsAt_append.mp hb).2⟩
    | _ => rfl

/-- The name of a class is one step away: the text in the slot that its entry refers to. -/
theorem rawClassName_eq (h : p.Indexes policy es) (index : UInt16) :
    p.rawClassName index = p.get index >>= Entry.asClassRef index >>= p.utf8 := by
  rcases h.get_cases index with ⟨error, ho, hget⟩ | ⟨o, e, ho, hget, hrep, hb⟩
  · rw [rawClassName, expect, ho, hget]
    rfl
  · rw [rawClassName, expect, ho, hget]
    dsimp only [bind, Except.bind]
    rw [tagAt_eq hrep hb]
    cases e with
    | classRef nameIndex =>
      have hname : readU16 p.bytes (o + 1) = .ok nameIndex :=
        readU16_eq_ok_iff.mpr (holdsAt_append.mp hb).2
      change readU16 p.bytes (o + 1) >>= p.utf8 = p.utf8 nameIndex
      rw [hname]
      rfl
    | _ => rfl

/-! ### Two indices of the same entries -/

variable {policy' : UnknownTagPolicy} {p' : Pool}

/-- The offsets of the slots do not depend on what stands around the entries. -/
theorem offsets_congr (h : p.Indexes policy es) (h' : p'.Indexes policy' es)
    (hcount : p'.count = p.count) : p'.offsets = p.offsets := by
  calc p'.offsets
      = (Pool.ofEntries p'.bytes p'.count es).offsets := congrArg Pool.offsets h'.eq_ofEntries
    _ = (Pool.ofEntries p.bytes p.count es).offsets := by rw [hcount]; rfl
    _ = p.offsets := (congrArg Pool.offsets h.eq_ofEntries).symm

/-- Neither does the answer for a slot, also where it is that there is none. -/
theorem get_congr (h : p.Indexes policy es) (h' : p'.Indexes policy' es)
    (hcount : p'.count = p.count) (index : UInt16) : p'.get index = p.get index := by
  have hoffset : p'.offset index = p.offset index := by
    rw [offset, offset, h.offsets_congr h' hcount, hcount]
  rcases h.get_cases index with ⟨error, ho, hget⟩ | ⟨o, e, -, hget, -, -⟩
  · rw [hget, get, hoffset, ho]
    rfl
  · rw [hget]
    exact h'.get_eq_ok_iff.mpr (h.get_eq_ok_iff.mp hget)

end Pool.Indexes

end ClassRelay.ClassFile
