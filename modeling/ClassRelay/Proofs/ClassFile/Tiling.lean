import ClassRelay.Proofs.ClassFile.Layout
import ClassRelay.Proofs.ClassFile.Pool.Walk

/-!
# Nothing is lost in a pool

The entries of an accepted class, written back one behind the other, are the bytes of its pool
(`load_tiles_pool`). The scan, which only measures entries, and the lookups, which read them,
dispatch on tags separately; that the written entries lie in the pool without a gap and without
an overlap says that they agree.
-/

namespace ClassRelay.ClassFile

variable {policy : UnknownTagPolicy} {b : ByteArray} {c : ClassFile}

/-- The entries that a walk over the pool meets, written back, are the bytes of the pool. -/
structure Tiles (policy : UnknownTagPolicy) (c : ClassFile) (es : List Entry) : Prop where
  /-- Every item of the walk is an entry. -/
  items : c.pool.entries.map Prod.snd = es.map .ok
  /-- The pool lies inside the class. -/
  within : poolStart + c.pool.byteSize ≤ c.bytes.size
  /-- The written entries are the bytes of the pool. -/
  encodeAll_eq :
    Entry.encodeAll es = c.bytes.extract poolStart (poolStart + c.pool.byteSize)
  /-- Each entry starts where the ones before it end, under the slot that the walk gives. -/
  offset_eq : ∀ k (hk : k < es.length), ∃ index,
    c.pool.entries[k]? = some (index, .ok es[k]) ∧
    c.pool.offset index = .ok (poolStart + (Entry.encodeAll (es.take k)).size)
  /-- There the scan steps over as many bytes as the fields of the entry have. -/
  read_eq : ∀ k (hk : k < es.length), ∃ extent,
    Extent.read policy c.bytes (poolStart + (Entry.encodeAll (es.take k)).size) = .ok extent ∧
    extent.payload = es[k].payload.size

theorem Layout.WellFormed.tiles {l : Layout} (h : l.WellFormed policy) :
    Tiles policy l.toClassFile l.entries := by
  have hindex := h.indexes
  have hbyteSize : l.toClassFile.pool.byteSize = (Entry.encodeAll l.entries).size :=
    Pool.byteSize_ofEntries
  refine ⟨?_, ?_, ?_, fun k hk => ?_, fun k hk => ?_⟩
  · calc l.toClassFile.pool.entries.map Prod.snd
        = ((places l.entries).map Placement.entry).map .ok := by
          rw [hindex.entries_eq, List.map_map, List.map_map]
          rfl
      _ = l.entries.map .ok := by rw [map_entry_places]
  · rw [hbyteSize]
    exact hindex.holdsAt.le_size
  · rw [hbyteSize]
    exact hindex.holdsAt.extract_eq.symm
  · have hplace := getElem?_places hk
    refine ⟨_, ?_, hindex.offset_of_mem (List.mem_of_getElem? hplace)⟩
    rw [hindex.entries_eq, List.getElem?_map, hplace]
    rfl
  · have hmem := List.mem_of_getElem? (getElem?_places hk)
    have hread := Entry.read_extent (hindex.fills.of_mem_place hmem).1
      (holdsAt_of_mem_place hindex.holdsAt hmem)
    exact ⟨_, hread, Entry.payload_extent _⟩

/-- **Tiling.** Decoding a pool loses nothing: the entries of an accepted class, written back in
the order of a walk, are exactly the bytes of its pool. -/
theorem load_tiles_pool (h : (load policy b).value = .ok c) :
    c.bytes = b ∧ ∃ es : List Entry, Tiles policy c es := by
  rw [value_load] at h
  obtain ⟨l, hl, rfl, rfl⟩ := Layout.parse_eq_ok_iff.mp h
  exact ⟨rfl, l.entries, hl.tiles⟩

/-- The bytes of a class whose pool holds an entry under an unknown tag, and in its last slot a
wide entry that overhangs it. -/
def overhangingClass : ByteArray :=
  ⟨#[0xCA, 0xFE, 0xBA, 0xBE, 0, 0, 0, 65, 0, 3, 99, 1, 2, 3, 4, 5, 0, 0, 0, 0, 0, 0, 0, 1,
    0, 33, 0, 1, 0, 0, 0, 0]⟩

theorem load_tiles_pool_overhanging :
    ∃ c, (load .assumeFourBytes overhangingClass).value = .ok c ∧
      c.bytes = overhangingClass ∧ ∃ es : List Entry, Tiles .assumeFourBytes c es := by
  obtain ⟨c, hc⟩ : ∃ c, (load .assumeFourBytes overhangingClass).value = .ok c :=
    exists_eq_ok_of_isOk (by decide +kernel)
  exact ⟨c, hc, load_tiles_pool hc⟩

end ClassRelay.ClassFile
