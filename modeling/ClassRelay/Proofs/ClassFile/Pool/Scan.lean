import ClassRelay.Proofs.ClassFile.Pool.Placement

/-!
# What the scan finds

`Pool.scan` walks from extent to extent and never decodes an entry. Still it accepts exactly the
pools that are written down: `Pool.scan_eq_ok_iff` says that a scan succeeds just when entries
that fill the declared slots stand from the start of the pool on, and that the index it gives is
the one that belongs to them.

The scan keeps one **invariant**: the slots filled so far are those of the entries passed so
far, and the cursor stands behind them. One step of it is `Pool.scanFrom_step`; all the others
are inductions over the entries (`Pool.scanFrom_of_fills`) or over the scan
(`Pool.exists_fills_of_scanFrom`). What it emits on the way is told by the entries as well
(`Pool.log_scan_of_fills`).
-/

namespace ClassRelay.ClassFile

/-! ### Warnings -/

/-- Stepping over an entry adds one warning, if its size is a guess. -/
theorem Extent.toList_warn (extent : Extent) (index : Nat) (warnings : Array Warning) :
    (extent.warn index warnings).toList =
      warnings.toList ++ (extent.guess?.map fun number => .guessed number index).toList := by
  rw [warn]
  cases extent.guess? with
  | none => exact (List.append_nil _).symm
  | some number => exact Array.toList_push

/-- The warning about a placed entry, if its size is a guess. -/
def Placement.warning? (q : Placement) : Option Warning :=
  q.entry.extent.guess?.map fun number => .guessed number q.slot

namespace Pool

variable {policy : UnknownTagPolicy} {b : ByteArray} {room cursor : Nat}
variable {offsets : Array (Option Nat)} {warnings : Array Warning} {p : Pool}

/-! ### One step -/

/-- The index behind an entry that starts at `cursor`: its offset, and an empty slot if it is
wide and there is room for that. -/
def pushEntry (e : Entry) (room cursor : Nat) (offsets : Array (Option Nat)) :
    Array (Option Nat) :=
  if e.extent.isWide = true ∧ 0 < room then (offsets.push (some cursor)).push none
  else offsets.push (some cursor)

/-- **One step of the scan.** It passes the entry at the cursor. -/
theorem scanFrom_step {e : Entry} (he : e.Allowed policy) (hb : HoldsAt b cursor e.encode) :
    scanFrom policy b (room + 1) cursor offsets warnings =
      scanFrom policy b (room + 1 - e.slots) (cursor + e.encode.size)
        (pushEntry e room cursor offsets) (e.extent.warn offsets.size warnings) := by
  have hle := hb.le_size
  rw [scanFrom, Entry.read_extent he hb]
  simp only [Entry.add_payload_extent, if_neg (Nat.not_lt.mpr hle), Entry.slots_eq, pushEntry]
  cases e.extent.isWide with
  | false => simp
  | true =>
    cases room with
    | zero => simp
    | succ room => simp

theorem size_pushEntry {e : Entry} :
    (pushEntry e room cursor offsets).size = offsets.size + min e.slots (room + 1) := by
  rw [Entry.slots_eq, pushEntry]
  cases e.extent.isWide with
  | false => simp
  | true =>
    cases room with
    | zero => simp
    | succ room => simp

/-- Behind an entry, the index has the slots up to the next free one, as far as they are there. -/
theorem size_pushEntry_eq_min {e : Entry} {count slot : Nat} (hroom : count - slot = room + 1)
    (hsize : offsets.size = min slot count) :
    (pushEntry e room cursor offsets).size = min (slot + e.slots) count := by
  have hone := e.one_le_slots
  rw [size_pushEntry]
  omega

/-- An entry fills its own slots of the index, as far as there is room for them. -/
theorem toList_pushEntry {e : Entry} (es : List Entry) :
    (pushEntry e room cursor offsets).toList = offsets.toList ++
      (List.range' offsets.size (min e.slots (room + 1))).map
        (offsetIn (place offsets.size cursor (e :: es))) := by
  have hself : offsetIn (place offsets.size cursor (e :: es)) offsets.size = some cursor :=
    offsetIn_cons_self
  rw [pushEntry]
  by_cases hwide : e.extent.isWide = true ∧ 0 < room
  · have hslots : e.slots = 2 := by rw [Entry.slots_eq, if_pos hwide.1]
    have hshadow : offsetIn (place offsets.size cursor (e :: es)) (offsets.size + 1) = none := by
      rw [place_cons, offsetIn_cons_of_ne (Nat.ne_of_lt (Nat.lt_succ_self _)), hslots]
      exact offsetIn_place_of_lt (Nat.lt_succ_self _)
    rw [if_pos hwide, hslots, Nat.min_eq_left (by omega)]
    simp [List.range', hself, hshadow]
  · have hone : min e.slots (room + 1) = 1 := by
      rw [Entry.slots_eq]
      split
      next h =>
        have hroom : room = 0 := by simpa [h] using hwide
        omega
      next h => omega
    rw [if_neg hwide, hone]
    simp [List.range', hself]

/-- Behind an entry, the index is that of the other entries. -/
theorem map_offsetIn_place_cons {slot first n : Nat} {e : Entry} {es : List Entry}
    (h : slot < first) : (List.range' first n).map (offsetIn (place slot cursor (e :: es))) =
      (List.range' first n).map
        (offsetIn (place (slot + e.slots) (cursor + e.encode.size) es)) := by
  refine List.map_congr_left fun s hs => ?_
  have hle := (List.mem_range'_1.mp hs).1
  rw [place_cons, offsetIn_cons_of_ne]
  exact Nat.ne_of_lt (Nat.lt_of_lt_of_le h hle)

/-! ### A whole scan -/

/-- **Completeness.** Where entries stand that fill the slots, the scan finds them. -/
theorem scanFrom_of_fills {count slot : Nat} {es : List Entry} (hf : Fills policy count slot es)
    (hb : HoldsAt b cursor (Entry.encodeAll es)) (hsize : offsets.size = min slot count) :
    (scanFrom policy b (count - slot) cursor offsets warnings).value =
      .ok ⟨b, (offsets.toList ++ (List.range' offsets.size (count - offsets.size)).map
        (offsetIn (place slot cursor es))).toArray, cursor + (Entry.encodeAll es).size⟩ := by
  induction hf generalizing cursor offsets warnings with
  | @done slot h =>
    rw [Nat.min_eq_right h] at hsize
    rw [Nat.sub_eq_zero_of_le h, scanFrom, hsize]
    simp
  | @step slot e es h he hes ih =>
    obtain ⟨room, hroom⟩ : ∃ room, count - slot = room + 1 := ⟨count - slot - 1, by omega⟩
    obtain ⟨hhead, htail⟩ := holdsAt_append.mp hb
    have hone := e.one_le_slots
    have hnext : (pushEntry e room cursor offsets).size = min (slot + e.slots) count :=
      size_pushEntry_eq_min hroom hsize
    rw [Nat.min_eq_left (Nat.le_of_lt h)] at hsize
    rw [hroom, scanFrom_step he hhead, ← hroom, Nat.sub_sub, ih htail hnext, hnext,
      toList_pushEntry es, hsize]
    -- The slots of the first entry and the slots behind them are all the slots.
    have hsplit : List.range' slot (count - slot) =
        List.range' slot (min e.slots (room + 1)) ++
          List.range' (min (slot + e.slots) count) (count - min (slot + e.slots) count) := by
      rw [show min (slot + e.slots) count = slot + min e.slots (room + 1) by omega,
        show count - slot = min e.slots (room + 1) +
          (count - (slot + min e.slots (room + 1))) by omega]
      rw [← List.range'_append_1]
    have hbehind : slot < min (slot + e.slots) count := by omega
    rw [hsplit, List.map_append, map_offsetIn_place_cons hbehind, List.append_assoc,
      Entry.encodeAll_cons, ByteArray.size_append, Nat.add_assoc]

/-- **What a scan emits** is one warning for each of the entries whose size it guessed. -/
theorem log_scanFrom_of_fills {count slot : Nat} {es : List Entry}
    (hf : Fills policy count slot es) (hb : HoldsAt b cursor (Entry.encodeAll es))
    (hsize : offsets.size = min slot count) :
    (scanFrom policy b (count - slot) cursor offsets warnings).log =
      warnings.toList ++ (place slot cursor es).filterMap Placement.warning? := by
  induction hf generalizing cursor offsets warnings with
  | done h =>
    rw [Nat.sub_eq_zero_of_le h, scanFrom]
    exact (List.append_nil _).symm
  | @step slot e es h he hes ih =>
    obtain ⟨room, hroom⟩ : ∃ room, count - slot = room + 1 := ⟨count - slot - 1, by omega⟩
    obtain ⟨hhead, htail⟩ := holdsAt_append.mp hb
    rw [hroom, scanFrom_step he hhead, ← hroom, Nat.sub_sub,
      ih htail (size_pushEntry_eq_min hroom hsize), Extent.toList_warn, hsize,
      Nat.min_eq_left (Nat.le_of_lt h), place_cons, List.append_assoc, filterMap_cons_eq_append]
    rfl

/-- A scan that succeeds with room left has met an entry. -/
private theorem exists_entry_of_scanFrom
    (h : (scanFrom policy b (room + 1) cursor offsets warnings).value = .ok p) :
    ∃ e : Entry, e.Allowed policy ∧ HoldsAt b cursor e.encode := by
  rw [scanFrom] at h
  split at h
  next => cases h
  next extent hextent =>
    dsimp only at h
    split at h
    next => cases h
    next hle =>
      obtain ⟨e, he, hb, -⟩ := Entry.exists_of_read_extent hextent (Nat.not_lt.mp hle)
      exact ⟨e, he, hb⟩

/-- **Soundness.** What a scan passes are entries that fill the slots. -/
theorem exists_fills_of_scanFrom {count slot : Nat} (hle : cursor ≤ b.size)
    (h : (scanFrom policy b (count - slot) cursor offsets warnings).value = .ok p) :
    ∃ es, Fills policy count slot es ∧ HoldsAt b cursor (Entry.encodeAll es) := by
  -- The entries are only found on the way, so the induction is on the room that is left.
  induction hn : count - slot using Nat.strongRecOn generalizing slot cursor offsets warnings with
  | ind n ih =>
    cases n with
    | zero => exact ⟨[], .done (Nat.le_of_sub_eq_zero hn), holdsAt_empty.mpr hle⟩
    | succ room =>
      rw [hn] at h
      obtain ⟨e, he, hhead⟩ := exists_entry_of_scanFrom h
      have hone := e.one_le_slots
      rw [scanFrom_step he hhead, ← hn, Nat.sub_sub] at h
      obtain ⟨es, hes, htail⟩ := ih (count - (slot + e.slots)) (by omega) hhead.le_size h rfl
      exact ⟨e :: es, .step (by omega) he hes, holdsAt_append.mpr ⟨hhead, htail⟩⟩

/-- The scan of a pool with slots starts behind slot zero, which holds no entry. -/
theorem scan_of_count {count : UInt16} (hcount : readU16 b poolCountOffset = .ok count)
    (hpos : 0 < count.toNat) :
    scan policy b = scanFrom policy b (count.toNat - 1) poolStart #[none] #[] := by
  obtain ⟨room, hroom⟩ : ∃ room, count.toNat = room + 1 := ⟨count.toNat - 1, by omega⟩
  rw [scan, hcount]
  simp only [hroom, Nat.add_sub_cancel]

/-- The scan of a pool that declares no slot, not even slot zero, ends at once. -/
theorem scan_of_count_zero {count : UInt16} (hcount : readU16 b poolCountOffset = .ok count)
    (hzero : count.toNat = 0) : scan policy b = ⟨.ok ⟨b, #[], poolStart⟩, []⟩ := by
  rw [scan, hcount]
  simp only [hzero]

theorem scan_of_fills {count : UInt16} {es : List Entry}
    (hcount : HoldsAt b poolCountOffset (BigEndian.encode16 count))
    (hf : Fills policy count.toNat 1 es) (hb : HoldsAt b poolStart (Entry.encodeAll es)) :
    (scan policy b).value = .ok (ofEntries b count.toNat es) := by
  rw [← readU16_eq_ok_iff] at hcount
  rcases Nat.eq_zero_or_pos count.toNat with hzero | hpos
  · rw [hzero] at hf
    cases hf with
    | done => rw [scan_of_count_zero hcount hzero, hzero]; rfl
    | step h => cases h
  · have hfirst : offsetIn (place 1 poolStart es) 0 = none := offsetIn_place_of_lt (Nat.zero_lt_one)
    have hrange : List.range count.toNat = 0 :: List.range' 1 (count.toNat - 1) := by
      rw [List.range_eq_range', ← Nat.sub_add_cancel hpos, List.range'_succ]
      rfl
    have hsize : (#[none] : Array (Option Nat)).size = min 1 count.toNat :=
      (Nat.min_eq_left hpos).symm
    rw [scan_of_count hcount hpos, scanFrom_of_fills hf hb hsize, ofEntries, hrange,
      List.map_cons, hfirst]
    rfl

/-- The warnings about the entries of a pool. -/
theorem log_scan_of_fills {count : UInt16} {es : List Entry}
    (hcount : HoldsAt b poolCountOffset (BigEndian.encode16 count))
    (hf : Fills policy count.toNat 1 es) (hb : HoldsAt b poolStart (Entry.encodeAll es)) :
    (scan policy b).log = (place 1 poolStart es).filterMap Placement.warning? := by
  rw [← readU16_eq_ok_iff] at hcount
  rcases Nat.eq_zero_or_pos count.toNat with hzero | hpos
  · rw [hzero] at hf
    cases hf with
    | done => rw [scan_of_count_zero hcount hzero]; rfl
    | step h => cases h
  · have hsize : (#[none] : Array (Option Nat)).size = min 1 count.toNat :=
      (Nat.min_eq_left hpos).symm
    rw [scan_of_count hcount hpos, log_scanFrom_of_fills hf hb hsize]
    rfl

/-- **The scan finds exactly the written pools.** It succeeds just when entries that fill the
declared slots stand from the start of the pool on, and its result is their index. -/
theorem scan_eq_ok_iff : (scan policy b).value = .ok p ↔
    ∃ (count : UInt16) (es : List Entry),
      HoldsAt b poolCountOffset (BigEndian.encode16 count) ∧ Fills policy count.toNat 1 es ∧
        HoldsAt b poolStart (Entry.encodeAll es) ∧ p = ofEntries b count.toNat es := by
  constructor
  · intro h
    cases hcount : readU16 b poolCountOffset with
    | error e =>
      rw [scan, hcount] at h
      cases h
    | ok count =>
      have hheader := readU16_eq_ok_iff.mp hcount
      have hexists : ∃ es, Fills policy count.toNat 1 es ∧
          HoldsAt b poolStart (Entry.encodeAll es) := by
        rcases Nat.eq_zero_or_pos count.toNat with hzero | hpos
        · exact ⟨[], .done (by omega), holdsAt_empty.mpr hheader.le_size⟩
        · rw [scan_of_count hcount hpos] at h
          exact exists_fills_of_scanFrom hheader.le_size h
      obtain ⟨es, hf, hb⟩ := hexists
      exact ⟨count, es, hheader, hf, hb,
        Except.ok.inj (h.symm.trans (scan_of_fills hheader hf hb))⟩
  · rintro ⟨count, es, hcount, hf, hb, rfl⟩
    exact scan_of_fills hcount hf hb

end Pool

end ClassRelay.ClassFile
