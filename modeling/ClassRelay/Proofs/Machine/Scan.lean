import ClassRelay.Proofs.ClassFile.Pool.Scan
import ClassRelay.Proofs.Machine.Lookup

/-!
# The scan on a machine

The scan of a pool with words for its cursor and for the slot that it fills, and with a table
that has all its slots from the start. Three things are added to before they are looked at: the
slot, twice for a wide entry; the size of an entry; and the cursor, which passes an entry of any
declared size before it is compared with the end of the bytes. The table is written to without a
look, because the slot is below the declared count.

`scan_agrees` says that this is the scan on natural numbers all the same. Its **invariant** is
`Scan.Tracks`: the cursor is inside, the table has as many slots as are declared, and it holds the
offsets found so far and zeros behind them. One step keeps it because what is added to the cursor
is less than `65539`, which fits behind any byte string that a machine can hold.
-/

namespace ClassRelay.Machine

open ClassFile

variable {policy : UnknownTagPolicy} {b : ByteArray}

/-- Where a scan is, and what it has found. -/
structure Scan where
  slot : UInt64
  cursor : UInt64
  offsets : Array UInt64

/-- The size of the payload behind the tag byte at `cursor`, and the last slot of the entry if it
starts in `slot`. -/
def measure (policy : UnknownTagPolicy) (b : ByteArray) (cursor slot : UInt64) :
    Run (UInt64 × UInt64) := do
  let number ← readU8 b cursor
  match Tag.ofNumber? number with
  | none =>
    match policy with
    | .reject => throw (.refused (.unknownTag number))
    | .assumeFourBytes => return (UInt64.ofNat guessedSize, slot)
  | some tag =>
    match tag.payloadSize? with
    | none =>
      let size ← readU16 b (← add cursor 1)
      return (← add 2 size.toUInt64, slot)
    | some size =>
      if tag.isWide then return (UInt64.ofNat size, ← add slot 1)
      else return (UInt64.ofNat size, slot)

/-- One entry is passed. -/
def Scan.pass (policy : UnknownTagPolicy) (b : ByteArray) (s : Scan) : Run Scan := do
  let offsets ← store s.offsets s.slot s.cursor
  let (payload, slot) ← measure policy b s.cursor s.slot
  let cursor ← add s.cursor (← add 1 payload)
  if b.size < cursor.toNat then
    let last ← sub cursor 1
    throw (.refused (.outOfBounds last.toNat b.size))
  else
    return ⟨← add slot 1, cursor, offsets⟩

theorem le_of_measure {cursor slot payload slot' : UInt64}
    (h : measure policy b cursor slot = .ok (payload, slot')) : slot.toNat ≤ slot'.toNat := by
  obtain ⟨number, -, h⟩ := bind_eq_ok_iff.mp h
  split at h
  next =>
    split at h
    next => cases h
    next =>
      cases h
      exact Nat.le_refl _
  next tag _ =>
    split at h
    next =>
      obtain ⟨start, -, h⟩ := bind_eq_ok_iff.mp h
      obtain ⟨size, -, h⟩ := bind_eq_ok_iff.mp h
      obtain ⟨sum, -, h⟩ := bind_eq_ok_iff.mp h
      cases h
      exact Nat.le_refl _
    next =>
      split at h
      next =>
        obtain ⟨next, hadd, h⟩ := bind_eq_ok_iff.mp h
        cases h
        rw [add_eq_ok_iff.mp hadd]
        exact Nat.le_add_right _ _
      next =>
        cases h
        exact Nat.le_refl _

/-- A scan goes on to a later slot. -/
theorem Scan.slot_lt_of_pass {s t : Scan} (h : s.pass policy b = .ok t) :
    s.slot.toNat < t.slot.toNat := by
  obtain ⟨offsets, -, h⟩ := bind_eq_ok_iff.mp h
  obtain ⟨⟨payload, slot⟩, hmeasure, h⟩ := bind_eq_ok_iff.mp h
  obtain ⟨size, -, h⟩ := bind_eq_ok_iff.mp h
  obtain ⟨cursor, -, h⟩ := bind_eq_ok_iff.mp h
  split at h
  next =>
    obtain ⟨last, -, h⟩ := bind_eq_ok_iff.mp h
    cases h
  next =>
    obtain ⟨next, hadd, h⟩ := bind_eq_ok_iff.mp h
    cases h
    have hnext : next.toNat = slot.toNat + 1 := add_eq_ok_iff.mp hadd
    have hle := le_of_measure hmeasure
    change s.slot.toNat < next.toNat
    omega

/-- Entries are passed until no slot is left. -/
def scanFrom (policy : UnknownTagPolicy) (b : ByteArray) (count : UInt64) (s : Scan) : Run Scan :=
  if s.slot.toNat < count.toNat then
    match _h : s.pass policy b with
    | .error stop => .error stop
    | .ok next => scanFrom policy b count next
  else .ok s
termination_by count.toNat - s.slot.toNat
decreasing_by
  have hlt := Scan.slot_lt_of_pass _h
  omega

/-- The pool that a scan has found. -/
def Scan.pool (b : ByteArray) (s : Scan) : Pool :=
  ⟨b, s.offsets, s.cursor⟩

/-- The index of the constant pool of class bytes. -/
def scan (policy : UnknownTagPolicy) (b : ByteArray) : Run Pool := do
  let count ← readU16 b 8
  let s ← scanFrom policy b count.toUInt64 ⟨1, 10, Array.replicate count.toNat 0⟩
  return s.pool b

/-! ### One step -/

/-- The payload is measured exactly, and a wide entry takes a slot more. No payload is larger than
a text with its length in front, whatever the bytes declare. -/
theorem measure_agrees {cursor slot : UInt64} (hb : b.size ≤ maxSize)
    (hcursor : cursor.toNat ≤ b.size) (hslot : slot.toNat ≤ maxSize) :
    Agrees (fun m extent => m.1.toNat = extent.payload ∧ extent.payload < 65538 ∧
        m.2.toNat = slot.toNat + if extent.isWide then 1 else 0)
      (measure policy b cursor slot) (Extent.read policy b cursor.toNat) := by
  refine (readU8_agrees hb).bind ?_
  rintro number _ ⟨rfl, -⟩
  cases Tag.ofNumber? number with
  | none =>
    cases policy with
    | reject => exact .refused
    | assumeFourBytes => exact .ok ⟨rfl, Nat.le_of_ble_eq_true rfl, rfl⟩
  | some tag =>
    cases tag with
    | utf8 =>
      obtain ⟨start, hadd, (hstart : start.toNat = cursor.toNat + 1)⟩ :=
        exists_add_of_le (v := cursor) (w := 1) (by omega) (by decide)
      dsimp only [Tag.payloadSize?]
      rw [hadd, ← hstart]
      refine (readU16_agrees hb).bind ?_
      rintro size _ rfl
      have hlt := size.toNat_lt
      obtain ⟨sum, hadd', (hsum : sum.toNat = 2 + size.toNat)⟩ :=
        exists_add_of_le (v := 2) (w := size.toUInt64) (by decide)
          (Nat.le_trans (Nat.le_of_lt hlt) (by decide))
      rw [hadd']
      exact .ok ⟨hsum, by dsimp only; omega, rfl⟩
    | wide tag =>
      obtain ⟨next, hadd, hnext⟩ := exists_add_of_le (w := 1) hslot (by decide)
      dsimp only [Tag.payloadSize?, Tag.isWide]
      rw [hadd]
      exact .ok ⟨rfl, Nat.le_of_ble_eq_true rfl, hnext⟩
    | classRef | stringRef | methodType | methodHandle | moduleRef | packageRef | word =>
      exact .ok ⟨rfl, Nat.le_of_ble_eq_true rfl, rfl⟩

/-- A step of a scan from `s` to `t` passes an entry of this extent, which lies inside. -/
structure Scan.Passes (s : Scan) (b : ByteArray) (extent : Extent) (t : Scan) : Prop where
  offsets_eq : store s.offsets s.slot s.cursor = .ok t.offsets
  cursor_eq : t.cursor.toNat = s.cursor.toNat + 1 + extent.payload
  cursor_le : t.cursor.toNat ≤ b.size
  slot_eq : t.slot.toNat = s.slot.toNat + 1 + if extent.isWide then 1 else 0

/-- **One step of the scan agrees.** It measures the entry at the cursor, and passes it if it
lies inside. -/
theorem Scan.pass_agrees {s : Scan} (hb : b.size ≤ maxSize) (hcursor : s.cursor.toNat ≤ b.size)
    (hslot : s.slot.toNat < s.offsets.size) (hsize : s.offsets.size ≤ UInt16.size) :
    Agrees (fun t extent => s.Passes b extent t) (s.pass policy b)
      (Extent.read policy b s.cursor.toNat >>= fun extent =>
        if b.size < s.cursor.toNat + 1 + extent.payload then
          .error (.outOfBounds (s.cursor.toNat + 1 + extent.payload - 1) b.size)
        else .ok extent) := by
  have hslotmax : s.slot.toNat ≤ maxSize :=
    Nat.le_of_lt (Nat.lt_of_lt_of_le hslot (Nat.le_trans hsize (by decide)))
  rw [pass, store_of_lt hslot]
  refine (measure_agrees hb hcursor hslotmax).bind ?_
  rintro ⟨payload, slot⟩ extent ⟨hpayload, hlt, hslot'⟩
  dsimp only at hpayload hslot' ⊢
  -- The cursor is inside and the payload is small, so behind the entry it is still a word,
  -- although nobody has looked yet whether the bytes reach that far.
  obtain ⟨size, hadd, (hsum : size.toNat = 1 + payload.toNat)⟩ :=
    exists_add_of_le (v := 1) (w := payload) (by decide)
      (by rw [hpayload]; exact Nat.le_trans (Nat.le_of_lt hlt) (by decide))
  have hsizemax : size.toNat ≤ maxSize := by
    have hroom : 65538 ≤ maxSize := by decide
    omega
  obtain ⟨cursor, hadd', hcursor'⟩ :=
    exists_add_of_le (v := s.cursor) (w := size) (Nat.le_trans hcursor hb) hsizemax
  rw [hadd]
  dsimp only [bind, Except.bind]
  rw [hadd', show s.cursor.toNat + 1 + extent.payload = cursor.toNat by omega]
  dsimp only
  by_cases hover : b.size < cursor.toNat
  · obtain ⟨last, hsub, (hlast : last.toNat = cursor.toNat - 1)⟩ :=
      exists_sub (v := cursor) (w := 1) (by change 1 ≤ cursor.toNat; omega)
    rw [if_pos hover, if_pos hover, hsub, ← hlast]
    exact .refused
  · -- The slot was below the count, and is now at most two further.
    have hroom : UInt16.size < maxSize := by decide
    have hslotle : slot.toNat ≤ s.slot.toNat + 1 := by
      rw [hslot']
      split <;> omega
    obtain ⟨next, hadd'', (hnext : next.toNat = slot.toNat + 1)⟩ :=
      exists_add_of_le (v := slot) (w := 1) (by omega) (by decide)
    rw [if_neg hover, if_neg hover, hadd'']
    refine .ok ⟨store_of_lt hslot, ?_, Nat.not_lt.mp hover, ?_⟩
    · dsimp only
      omega
    · dsimp only
      rw [hnext, hslot']
      omega

/-! ### A whole scan -/

/-- A table has the offsets found so far, and zeros everywhere else. -/
def Marks (table : Array UInt64) (offsets : Array (Option Nat)) : Prop :=
  ∀ k : Nat, table[k]?.bind slotOffset = offsets[k]?.join

section Marks

variable {table : Array UInt64} {offsets : Array (Option Nat)} {slot w : UInt64}

/-- An entry that is found is written down in its slot. -/
theorem Marks.set_push (h : Marks table offsets) (hlt : slot.toNat < table.size)
    (hsize : offsets.size = slot.toNat) (hw : w ≠ 0) :
    Marks (table.set slot.toNat w) (offsets.push (some w.toNat)) := by
  intro k
  rw [Array.getElem?_set hlt, Array.getElem?_push, hsize]
  by_cases hk : slot.toNat = k
  · rw [if_pos hk, if_pos hk.symm]
    exact if_neg hw
  · rw [if_neg hk, if_neg (Ne.symm hk)]
    exact h k

/-- A slot that no entry starts in holds a zero from the start. -/
theorem Marks.push_none (h : Marks table offsets) : Marks table (offsets.push none) := by
  intro k
  rw [h k, Array.getElem?_push]
  split
  next hk =>
    rw [hk, Array.getElem?_eq_none (Nat.le_refl _)]
    rfl
  next => rfl

/-- At first the table has only zeros. -/
theorem marks_replicate (n : Nat) : Marks (Array.replicate n 0) #[none] := by
  intro k
  have hnone : (#[none] : Array (Option Nat))[k]?.join = none := by
    cases k <;> rfl
  rw [hnone, Array.getElem?_replicate]
  split <;> rfl

/-- A table without zeros left to fill stands for the offsets. -/
theorem Marks.map_eq (h : Marks table offsets) (hsize : offsets.size = table.size) :
    table.map slotOffset = offsets := by
  refine Array.ext (Array.size_map.trans hsize.symm) fun k hk hk' => ?_
  have hmark := h k
  rw [Array.getElem?_eq_getElem (hsize ▸ hk'), Array.getElem?_eq_getElem hk'] at hmark
  rw [Array.getElem_map]
  exact hmark

end Marks

/-- **The invariant of the scan.** The words say what the scan on natural numbers has found. -/
structure Scan.Tracks (s : Scan) (b : ByteArray) (room cursor : Nat)
    (offsets : Array (Option Nat)) : Prop where
  room_eq : s.offsets.size - s.slot.toNat = room
  cursor_eq : s.cursor.toNat = cursor
  marks : Marks s.offsets offsets
  size_eq : offsets.size = min s.slot.toNat s.offsets.size
  size_le : s.offsets.size ≤ UInt16.size
  start_le : poolStart ≤ cursor
  cursor_le : cursor ≤ b.size

namespace Scan

variable {s t : Scan} {room cursor : Nat} {offsets : Array (Option Nat)} {extent : Extent}

theorem Tracks.slot_lt (h : s.Tracks b (room + 1) cursor offsets) :
    s.slot.toNat < s.offsets.size := by
  have hroom := h.room_eq
  omega

/-- A step from where the scan on natural numbers is agrees with its step. -/
theorem Tracks.pass_agrees (policy : UnknownTagPolicy) (hb : b.size ≤ maxSize)
    (h : s.Tracks b (room + 1) cursor offsets) :
    Agrees (fun t extent => s.Passes b extent t) (s.pass policy b)
      (Extent.read policy b cursor >>= fun extent =>
        if b.size < cursor + 1 + extent.payload then
          .error (.outOfBounds (cursor + 1 + extent.payload - 1) b.size)
        else .ok extent) := by
  have hcursor := h.cursor_le
  rw [← h.cursor_eq] at hcursor ⊢
  exact Scan.pass_agrees hb hcursor h.slot_lt h.size_le

theorem Tracks.exists_pass (hb : b.size ≤ maxSize) (h : s.Tracks b (room + 1) cursor offsets)
    (hextent : Extent.read policy b cursor = .ok extent)
    (hle : ¬ b.size < cursor + 1 + extent.payload) :
    ∃ t, s.pass policy b = .ok t ∧ s.Passes b extent t := by
  have hpass := h.pass_agrees policy hb
  rw [hextent] at hpass
  dsimp only [bind, Except.bind] at hpass
  rw [if_neg hle] at hpass
  exact hpass.exists_of_ok

/-- The entry that is passed is written down, and the table keeps its size. -/
theorem Tracks.marks_push (h : s.Tracks b (room + 1) cursor offsets)
    (hpass : s.Passes b extent t) :
    Marks t.offsets (offsets.push (some cursor)) ∧ t.offsets.size = s.offsets.size := by
  have hlt := h.slot_lt
  have hsize : offsets.size = s.slot.toNat := h.size_eq.trans (Nat.min_eq_left (Nat.le_of_lt hlt))
  have hpos : s.cursor ≠ 0 := by
    intro hzero
    have hstart := h.start_le
    rw [← h.cursor_eq, hzero] at hstart
    cases hstart
  have hstore := hpass.offsets_eq
  rw [store_of_lt hlt] at hstore
  rw [← Except.ok.inj hstore, ← h.cursor_eq]
  exact ⟨h.marks.set_push hlt hsize hpos, Array.size_set hlt⟩

/-- The invariant holds again behind the entry, if the slots that it takes are counted as far as
there is room for them. -/
theorem Tracks.behind {offsets' : Array (Option Nat)} {slots : Nat}
    (h : s.Tracks b (room + 1) cursor offsets) (hpass : s.Passes b extent t)
    (hmarks : Marks t.offsets offsets') (hslots : slots = if extent.isWide then 2 else 1)
    (hsize : offsets'.size = offsets.size + min slots (room + 1)) :
    t.Tracks b (room + 1 - slots) (cursor + 1 + extent.payload) offsets' := by
  obtain ⟨-, htable⟩ := h.marks_push hpass
  have hroom := h.room_eq
  have hfilled := h.size_eq
  have hstart := h.start_le
  have hslot : t.slot.toNat = s.slot.toNat + slots := by
    rw [hpass.slot_eq, hslots]
    split <;> rfl
  have hcursor : t.cursor.toNat = cursor + 1 + extent.payload := by
    rw [hpass.cursor_eq, h.cursor_eq]
  exact {
    room_eq := by omega
    cursor_eq := hcursor
    marks := hmarks
    size_eq := by omega
    size_le := htable ▸ h.size_le
    start_le := by omega
    cursor_le := hcursor ▸ hpass.cursor_le }

end Scan

/-- What is true of every pool that a scan has built. -/
structure Pool.Sized (p : Pool) : Prop where
  bytes_le : p.bytes.size ≤ maxSize
  slots_le : p.offsets.size ≤ UInt16.size
  start_le : poolStart ≤ p.stop.toNat
  stop_le : p.stop.toNat ≤ p.bytes.size

section Run

variable {s t : Scan} {count : UInt64} {room cursor : Nat} {offsets : Array (Option Nat)}
variable {warnings : Array Warning}

theorem scanFrom_of_pass_ok (hlt : s.slot.toNat < count.toNat) (h : s.pass policy b = .ok t) :
    scanFrom policy b count s = scanFrom policy b count t := by
  rw [scanFrom, if_pos hlt]
  split
  next heq => cases h.symm.trans heq
  next heq =>
    cases h.symm.trans heq
    rfl

theorem scanFrom_of_pass_error {stop : Stop} (hlt : s.slot.toNat < count.toNat)
    (h : s.pass policy b = .error stop) : scanFrom policy b count s = .error stop := by
  rw [scanFrom, if_pos hlt]
  split
  next heq =>
    cases h.symm.trans heq
    rfl
  next heq => cases h.symm.trans heq

/-- A scan that is done has found the pool. -/
theorem Scan.Tracks.toPool_eq (h : s.Tracks b 0 cursor offsets) :
    (s.pool b).toPool = ⟨b, offsets, cursor⟩ := by
  have hroom := h.room_eq
  have hsize : offsets.size = s.offsets.size :=
    h.size_eq.trans (Nat.min_eq_right (Nat.le_of_sub_eq_zero hroom))
  rw [pool, Pool.toPool, h.marks.map_eq hsize, h.cursor_eq]

/-- A scan that is not done, and has an entry in front of it that lies inside, goes on behind
that. -/
theorem Scan.Tracks.exists_behind {extent : Extent} (hb : b.size ≤ maxSize)
    (hcount : s.offsets.size = count.toNat) (h : s.Tracks b (room + 1) cursor offsets)
    (hextent : Extent.read policy b cursor = .ok extent)
    (hle : ¬ b.size < cursor + 1 + extent.payload) :
    ∃ t, scanFrom policy b count s = scanFrom policy b count t ∧ s.Passes b extent t ∧
      t.offsets.size = count.toNat ∧ Marks t.offsets (offsets.push (some cursor)) := by
  obtain ⟨t, hok, hpass⟩ := h.exists_pass hb hextent hle
  obtain ⟨hmarks, htable⟩ := h.marks_push hpass
  exact ⟨t, scanFrom_of_pass_ok (hcount ▸ h.slot_lt) hok, hpass, htable.trans hcount, hmarks⟩

/-- **The scan agrees**, wherever both have got to. -/
theorem scanFrom_agrees (hb : b.size ≤ maxSize) (hcount : s.offsets.size = count.toNat)
    (h : s.Tracks b room cursor offsets) :
    Agrees (fun t p => (t.pool b).toPool = p ∧ (t.pool b).Sized) (scanFrom policy b count s)
      (ClassFile.Pool.scanFrom policy b room cursor offsets warnings).value := by
  -- The induction is on the scan on natural numbers; `Tracks` carries the words along.
  fun_induction ClassFile.Pool.scanFrom policy b room cursor offsets warnings generalizing s with
  | case1 cursor offsets warnings =>
    have hroom := h.room_eq
    rw [scanFrom, if_neg (by omega)]
    exact .ok ⟨h.toPool_eq, hb, h.size_le, h.cursor_eq ▸ h.start_le, h.cursor_eq ▸ h.cursor_le⟩
  | case2 cursor offsets warnings room e hextent =>
    have hpass := h.pass_agrees policy hb
    rw [hextent] at hpass
    rw [scanFrom_of_pass_error (hcount ▸ h.slot_lt) hpass.eq_of_error]
    exact .refused
  | case3 cursor offsets warnings room extent hextent =>
    rename_i hover
    have hpass := h.pass_agrees policy hb
    rw [hextent] at hpass
    dsimp only [bind, Except.bind] at hpass
    rw [if_pos hover] at hpass
    rw [scanFrom_of_pass_error (hcount ▸ h.slot_lt) hpass.eq_of_error]
    exact .refused
  | case4 cursor offsets warnings extent hextent =>
    -- A wide entry in the last slot has no second one; the slot number goes past the count.
    rename_i hle hwide ih
    obtain ⟨t, heq, hpass, htable, hmarks⟩ := h.exists_behind hb hcount hextent hle
    rw [heq]
    exact ih htable (h.behind hpass hmarks (if_pos hwide).symm (Array.size_push _))
  | case5 cursor offsets warnings extent hextent =>
    rename_i hle hwide room ih
    obtain ⟨t, heq, hpass, htable, hmarks⟩ := h.exists_behind hb hcount hextent hle
    have htwo : min 2 (room + 1 + 1) = 2 := Nat.min_eq_left (Nat.le_add_left 2 room)
    rw [heq]
    refine ih htable (h.behind hpass hmarks.push_none (if_pos hwide).symm ?_)
    rw [Array.size_push, Array.size_push, htwo]
  | case6 cursor offsets warnings room extent hextent =>
    rename_i hle hwide ih
    obtain ⟨t, heq, hpass, htable, hmarks⟩ := h.exists_behind hb hcount hextent hle
    have hone : min 1 (room + 1) = 1 := Nat.min_eq_left (Nat.le_add_left 1 room)
    rw [heq]
    refine ih htable (h.behind hpass hmarks (if_neg hwide).symm ?_)
    rw [Array.size_push, hone]

/-- **The whole scan agrees**, and the pool that it builds is one that lookups and walks can rely
upon. -/
theorem scan_agrees (hb : b.size ≤ maxSize) :
    Agrees (fun p q => p.toPool = q ∧ p.Sized) (scan policy b)
      (ClassFile.Pool.scan policy b).value := by
  have hread := @readU16_agrees b 8 hb
  change Agrees Eq _ (ClassFile.readU16 b poolCountOffset) at hread
  cases hcount : ClassFile.readU16 b poolCountOffset with
  | error e =>
    rw [hcount] at hread
    rw [scan, hread.eq_of_error, ClassFile.Pool.scan, hcount]
    exact .refused
  | ok count =>
    rw [hcount] at hread
    obtain ⟨count, hok, rfl⟩ := hread.exists_of_ok
    have hheader : poolStart ≤ b.size := (readU16_eq_ok_iff.mp hcount).le_size
    rw [scan, hok]
    dsimp only [bind, Except.bind]
    rcases Nat.eq_zero_or_pos count.toNat with hzero | hpos
    · rw [ClassFile.Pool.scan_of_count_zero hcount hzero, scanFrom,
        if_neg (by rw [UInt16.toNat_toUInt64, hzero]; exact Nat.not_lt_zero _), hzero]
      refine .ok ⟨?_, hb, Nat.zero_le _, Nat.le_refl _, hheader⟩
      rw [Scan.pool, Pool.toPool, Array.replicate_zero, Array.map_empty]
      rfl
    · rw [ClassFile.Pool.scan_of_count hcount hpos]
      have htracks : Scan.Tracks ⟨1, 10, Array.replicate count.toNat 0⟩ b (count.toNat - 1)
          poolStart #[none] := {
        room_eq := by rw [Array.size_replicate]; rfl
        cursor_eq := rfl
        marks := marks_replicate _
        size_eq := by rw [Array.size_replicate]; exact (Nat.min_eq_left hpos).symm
        size_le := by rw [Array.size_replicate]; exact Nat.le_of_lt count.toNat_lt_size
        start_le := Nat.le_refl _
        cursor_le := hheader }
      exact (scanFrom_agrees hb Array.size_replicate htracks).bind_ok
        fun t _ ht => ⟨t.pool b, rfl, ht⟩

end Run

end ClassRelay.Machine
