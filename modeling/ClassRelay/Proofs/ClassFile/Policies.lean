import ClassRelay.Assembler.Sample
import ClassRelay.Proofs.ClassFile.Layout
import ClassRelay.Proofs.ClassFile.Tiling

/-!
# Two policies for unknown tags

A scan that takes unknown tags to stand in front of four bytes does at first what a scan that
refuses them does. The two part where the **first unknown tag** stands, and there the refusing one
ends.

* `SameUntilUnknown` compares two results without a word on what the bytes are: they are the
  same, or the refusing one is an unknown tag. A step of the scan is compared in this way, then a
  whole scan, then the reading of a class (`parse_sameUntilUnknown`).
* Which tag the refusing scan ends at is told by the entries that the other one finds
  (`Pool.value_scanFrom_of_unknown`).

Together they say that guessing **extends** refusing (`load_extends_reject`): what is accepted
without a guess is accepted with one and not read differently.
-/

namespace ClassRelay.ClassFile

variable {b : ByteArray} {count slot offset cursor : Nat}
variable {e : Entry} {es front rest : List Entry}

/-! ### Unknown entries -/

namespace Entry

theorem tag?_eq_none_iff : e.tag? = none ↔ ∃ number bits, e = .unknown number bits := by
  cases e <;> simp [tag?]

/-- No entry under an unknown tag is passed by a scan that refuses them. -/
theorem Allowed.tag?_ne_none (h : e.Allowed .reject) : e.tag? ≠ none := by
  intro hnone
  cases h.policy_eq hnone

end Entry

namespace Pool

variable {p : Pool} {index : UInt16} {number : UInt8}

/-- The entry in slot `index` stands under the unknown tag `number`. -/
def IsUnknownAt (p : Pool) (index : UInt16) (number : UInt8) : Prop :=
  ∃ bits, p.get index = .ok (.unknown number bits)

/-- No entry stands under an unknown tag. -/
def AllKnown (p : Pool) : Prop :=
  ∀ index number, ¬ p.IsUnknownAt index number

/-- The entry in slot `index` is the first one under an unknown tag, and that tag is `number`. -/
structure FirstUnknown (p : Pool) (index : UInt16) (number : UInt8) : Prop where
  isUnknownAt : p.IsUnknownAt index number
  le_of_isUnknownAt : ∀ index' number', p.IsUnknownAt index' number' → index ≤ index'

/-- Where entries stand under unknown tags, one of them is the first. -/
theorem exists_firstUnknown (h : ¬ p.AllKnown) : ∃ index number, p.FirstUnknown index number := by
  obtain ⟨index, hindex⟩ := Classical.not_forall.mp h
  -- A slot of an unknown entry is the lowest one, or there is one below it.
  induction hn : index.toNat using Nat.strongRecOn generalizing index with
  | ind n ih =>
    by_cases hbelow : ∃ index' number', p.IsUnknownAt index' number' ∧ index' < index
    · obtain ⟨index', number', h', hlt⟩ := hbelow
      exact ih index'.toNat (hn ▸ UInt16.lt_iff_toNat_lt.mp hlt) index'
        (fun hno => hno number' h') rfl
    · obtain ⟨number, hnumber⟩ := Classical.not_forall_not.mp hindex
      exact ⟨index, number, hnumber, fun index' number' h' =>
        UInt16.not_lt.mp fun hlt => hbelow ⟨index', number', h', hlt⟩⟩

/-- The entries of a pool have known tags exactly when the lookups find no other ones. -/
theorem Indexes.allKnown_iff {policy : UnknownTagPolicy} (h : p.Indexes policy es) :
    p.AllKnown ↔ ∀ e ∈ es, e.tag? ≠ none := by
  constructor
  · intro hall e he hnone
    obtain ⟨number, bits, rfl⟩ := Entry.tag?_eq_none_iff.mp hnone
    obtain ⟨q, hq, hentry⟩ := exists_mem_places he
    exact hall _ number ⟨bits, hentry ▸ h.get_of_mem hq⟩
  · rintro hall index number ⟨bits, hget⟩
    obtain ⟨q, hq, -, hentry⟩ := h.get_eq_ok_iff.mp hget
    exact hall q.entry (entry_mem_of_mem_places hq)
      (Entry.tag?_eq_none_iff.mpr ⟨number, bits, hentry⟩)

/-- In front of the first unknown entry stand entries with known tags. -/
theorem Indexes.exists_append_of_firstUnknown {policy : UnknownTagPolicy} (h : p.Indexes policy es)
    (hfirst : p.FirstUnknown index number) : ∃ front bits rest,
      es = front ++ .unknown number bits :: rest ∧ ∀ e ∈ front, e.tag? ≠ none := by
  obtain ⟨bits, hget⟩ := hfirst.isUnknownAt
  obtain ⟨q, hq, hslot, hentry⟩ := h.get_eq_ok_iff.mp hget
  obtain ⟨front, rest, heq, hfront⟩ := exists_append_of_mem_place hq
  rw [hentry] at heq
  refine ⟨front, bits, rest, heq, fun e he hnone => ?_⟩
  -- An unknown entry among them would be placed in a slot below.
  obtain ⟨number', bits', rfl⟩ := Entry.tag?_eq_none_iff.mp hnone
  obtain ⟨q', hq', hentry'⟩ := exists_mem_places he
  have hmem : q' ∈ places es := by
    rw [heq, places, place_append]
    exact List.mem_append_left _ hq'
  have hbelow : q'.slot < q.slot := by
    have hle := slot_add_slots_le_of_mem_place hq'
    have hone := q'.entry.one_le_slots
    omega
  have hle := hfirst.le_of_isUnknownAt _ number' ⟨bits', hentry' ▸ h.get_of_mem hmem⟩
  rw [UInt16.le_iff_toNat_le, h.toNat_ofNat_slot hmem] at hle
  omega

end Pool

/-! ### Two runs that part at an unknown tag -/

/-- The two runs are one run, or the strict one ends at an unknown tag. -/
def SameUntilUnknown {α : Type} (strict lenient : Logged Warning (Except ClassError α)) : Prop :=
  lenient = strict ∨ ∃ number, strict.value = .error (.unknownTag number)

/-- The extent of an entry is read alike under both policies, or its tag is unknown. -/
theorem Extent.read_policies (b : ByteArray) (offset : Nat) :
    Extent.read .assumeFourBytes b offset = Extent.read .reject b offset ∨
      ∃ number, Extent.read .reject b offset = .error (.unknownTag number) := by
  rw [Extent.read, Extent.read]
  cases readU8 b offset with
  | error e => exact .inl rfl
  | ok number =>
    dsimp only [bind, Except.bind]
    cases Tag.ofNumber? number with
    | some tag => exact .inl rfl
    | none => exact .inr ⟨number, rfl⟩

/-- Where an unknown tag stands, reading the extent fails with it unless it is guessed. -/
theorem Extent.read_of_unknown {number : UInt8} (htag : Tag.ofNumber? number = none)
    (hnumber : readU8 b offset = .ok number) :
    Extent.read .reject b offset = .error (.unknownTag number) := by
  rw [Extent.read, hnumber]
  dsimp only [bind, Except.bind]
  rw [htag]
  rfl

namespace Pool

theorem scanFrom_sameUntilUnknown (b : ByteArray) (room cursor : Nat)
    (offsets : Array (Option Nat)) (warnings : Array Warning) :
    SameUntilUnknown (scanFrom .reject b room cursor offsets warnings)
      (scanFrom .assumeFourBytes b room cursor offsets warnings) := by
  -- An entry may take two slots, so the induction is not on the predecessor.
  induction room using Nat.strongRecOn generalizing cursor offsets warnings with
  | ind room ih =>
    cases room with
    | zero => exact .inl (by rw [scanFrom, scanFrom])
    | succ room =>
      rcases Extent.read_policies b cursor with hsame | ⟨number, hnumber⟩
      · cases hextent : Extent.read .reject b cursor with
        | error error => exact .inl (by rw [scanFrom, scanFrom, hsame, hextent])
        | ok extent =>
          by_cases hlt : b.size < cursor + 1 + extent.payload
          · left
            rw [scanFrom, scanFrom, hsame, hextent]
            dsimp only
            rw [if_pos hlt, if_pos hlt]
          · obtain ⟨e, he, hb, -⟩ := Entry.exists_of_read_extent hextent (Nat.not_lt.mp hlt)
            have he' : e.Allowed .assumeFourBytes :=
              .of_tag?_ne_none he.representable he.tag?_ne_none
            have hone := e.one_le_slots
            rw [scanFrom_step he hb, scanFrom_step he' hb]
            exact ih _ (by omega) _ _ _
      · exact .inr ⟨number, by rw [scanFrom, hnumber]⟩

/-- The scan that refuses unknown tags ends at the first one. -/
theorem value_scanFrom_of_unknown {number : UInt8} {bits : UInt32}
    {offsets : Array (Option Nat)} {warnings : Array Warning}
    (hf : Fills .assumeFourBytes count slot (front ++ .unknown number bits :: rest))
    (hknown : ∀ e ∈ front, e.tag? ≠ none)
    (hb : HoldsAt b cursor (Entry.encodeAll (front ++ .unknown number bits :: rest))) :
    (scanFrom .reject b (count - slot) cursor offsets warnings).value =
      .error (.unknownTag number) := by
  -- The scan passes the entries in front as they are passed under the other policy.
  induction front generalizing slot cursor offsets warnings with
  | nil =>
    cases hf with
    | step hlt he hes =>
      obtain ⟨room, hroom⟩ : ∃ room, count - slot = room + 1 := ⟨count - slot - 1, by omega⟩
      obtain ⟨hnumber, -⟩ := holdsAt_append.mp (holdsAt_append.mp hb).1
      rw [hroom, scanFrom, Extent.read_of_unknown he.representable (readU8_eq_ok_iff.mpr hnumber)]
  | cons e front ih =>
    cases hf with
    | step hlt he hes =>
      obtain ⟨room, hroom⟩ : ∃ room, count - slot = room + 1 := ⟨count - slot - 1, by omega⟩
      obtain ⟨hhead, htail⟩ := holdsAt_append.mp hb
      obtain ⟨htag, hfront⟩ := List.forall_mem_cons.mp hknown
      have he' : e.Allowed .reject := .of_tag?_ne_none he.representable htag
      rw [hroom, scanFrom_step he' hhead, ← hroom, Nat.sub_sub]
      exact ih hes hfront htail

theorem scan_sameUntilUnknown (b : ByteArray) :
    SameUntilUnknown (scan .reject b) (scan .assumeFourBytes b) := by
  cases hcount : readU16 b poolCountOffset with
  | error error => exact .inl (by rw [scan, scan, hcount])
  | ok count =>
    rcases Nat.eq_zero_or_pos count.toNat with hzero | hpos
    · exact .inl (by rw [scan_of_count_zero hcount hzero, scan_of_count_zero hcount hzero])
    · rw [scan_of_count hcount hpos, scan_of_count hcount hpos]
      exact scanFrom_sameUntilUnknown _ _ _ _ _

end Pool

/-- **The two readings part at an unknown tag**, if they part at all. -/
theorem parse_sameUntilUnknown (b : ByteArray) :
    SameUntilUnknown (parse .reject b) (parse .assumeFourBytes b) := by
  cases hstart : checkStart b with
  | error error => exact .inl (by rw [parse, parse, hstart])
  | ok start =>
    rcases Pool.scan_sameUntilUnknown b with hsame | ⟨number, hnumber⟩
    · exact .inl (by rw [parse, parse, hstart, hsame])
    · refine .inr ⟨number, ?_⟩
      rw [parse, hstart]
      dsimp only
      rw [hnumber]
      rfl

namespace Layout

variable {l : Layout}

/-- The entries of a layout that refuses unknown tags have known tags. -/
theorem WellFormed.tag?_ne_none (h : l.WellFormed .reject) (he : e ∈ l.entries) :
    e.tag? ≠ none := by
  obtain ⟨q, hq, rfl⟩ := exists_mem_places he
  exact (h.fills.of_mem_place hq).1.tag?_ne_none

/-- A layout whose entries have known tags is well-formed under every policy. -/
theorem WellFormed.of_tag?_ne_none {policy policy' : UnknownTagPolicy} (h : l.WellFormed policy)
    (hknown : ∀ e ∈ l.entries, e.tag? ≠ none) : l.WellFormed policy' :=
  ⟨h.fills.of_tag?_ne_none hknown, h.length_lt⟩

/-- The reading that refuses unknown tags ends at the first one. -/
theorem WellFormed.parse_of_unknown {number : UInt8} {bits : UInt32}
    (h : l.WellFormed .assumeFourBytes)
    (hentries : l.entries = front ++ .unknown number bits :: rest)
    (hknown : ∀ e ∈ front, e.tag? ≠ none) :
    (parse .reject l.bytes).value = .error (.unknownTag number) := by
  have hstart := checkStart_of_parse (parse_bytes h)
  obtain ⟨⟨-, -, -, hcount⟩, hheld, -⟩ := holdsAt_core.mp l.holdsAt_core_bytes
  have hf := h.fills
  rw [hentries] at hf hheld
  have hpos : 0 < l.count.toNat := Nat.lt_trans Nat.zero_lt_one (hf.lt_of_ne_nil (by simp))
  rw [parse, hstart]
  dsimp only
  rw [Pool.scan_of_count (readU16_eq_ok_iff.mpr hcount) hpos,
    Pool.value_scanFrom_of_unknown hf hknown hheld]
  rfl

end Layout

/-- How a reading that guesses the size of unknown entries extends one that refuses them. -/
structure Extends (strict lenient : Logged Warning (Except ClassError ClassFile)) : Prop where
  /-- What is accepted without a guess is accepted as the same class, and nothing in it was
  guessed. -/
  accepted : ∀ c, strict.value = .ok c → lenient.value = .ok c ∧ c.pool.AllKnown
  /-- What is accepted with nothing to guess is accepted as the same class. -/
  known : ∀ c, lenient.value = .ok c → c.pool.AllKnown → strict.value = .ok c
  /-- Where something was guessed, the first guess is what is refused. -/
  unknown : ∀ c, lenient.value = .ok c → ¬ c.pool.AllKnown →
    ∃ index number, c.pool.FirstUnknown index number ∧ strict.value = .error (.unknownTag number)
  /-- All other errors are errors of both. -/
  rejected : ∀ error, strict.value = .error error → (∀ number, error ≠ .unknownTag number) →
    lenient.value = .error error

/-- **Guessing extends refusing.** -/
theorem load_extends_reject (b : ByteArray) :
    Extends (load .reject b) (load .assumeFourBytes b) where
  accepted c hc := by
    rw [value_load] at hc ⊢
    have hknown : c.pool.AllKnown := by
      obtain ⟨l, hl, -, rfl⟩ := Layout.parse_eq_ok_iff.mp hc
      exact hl.indexes.allKnown_iff.mpr fun e he => hl.tag?_ne_none he
    rcases parse_sameUntilUnknown b with hsame | ⟨number, hnumber⟩
    · exact ⟨hsame ▸ hc, hknown⟩
    · cases hc.symm.trans hnumber
  known c hc hall := by
    rw [value_load] at hc ⊢
    obtain ⟨l, hl, rfl, rfl⟩ := Layout.parse_eq_ok_iff.mp hc
    exact Layout.parse_bytes (hl.of_tag?_ne_none (hl.indexes.allKnown_iff.mp hall))
  unknown c hc hnot := by
    rw [value_load] at hc ⊢
    obtain ⟨l, hl, rfl, rfl⟩ := Layout.parse_eq_ok_iff.mp hc
    obtain ⟨index, number, hfirst⟩ := Pool.exists_firstUnknown hnot
    -- The entries that were found tell where the other reading ends.
    obtain ⟨front, bits, rest, hentries, hfront⟩ := hl.indexes.exists_append_of_firstUnknown hfirst
    exact ⟨index, number, hfirst, hl.parse_of_unknown hentries hfront⟩
  rejected error herror hother := by
    rw [value_load] at herror ⊢
    rcases parse_sameUntilUnknown b with hsame | ⟨number, hnumber⟩
    · exact hsame ▸ herror
    · exact absurd (Except.error.inj (herror.symm.trans hnumber)) (hother number)

/-- Class bytes that end in the middle of a text. -/
def cutInText : ByteArray :=
  ⟨#[0xCA, 0xFE, 0xBA, 0xBE, 0, 0, 0, 65, 0, 2, 1, 0, 9, 65]⟩

/-- In the sample class there is nothing to guess, in the second one there is, and the third one is
refused before there could be. -/
theorem load_extends_reject_threeWays :
    (∃ c, (load .assumeFourBytes Assembler.sampleClass).value = .ok c ∧ c.pool.AllKnown ∧
      (load .reject Assembler.sampleClass).value = .ok c) ∧
    (∃ c index, (load .assumeFourBytes overhangingClass).value = .ok c ∧
      c.pool.FirstUnknown index 99 ∧
      (load .reject overhangingClass).value = .error (.unknownTag 99)) ∧
    (load .reject cutInText).value = .error (.outOfBounds 21 14) ∧
      (load .assumeFourBytes cutInText).value = .error (.outOfBounds 21 14) := by
  have hsample := load_extends_reject Assembler.sampleClass
  have hguessed := load_extends_reject overhangingClass
  have hcut := load_extends_reject cutInText
  refine ⟨?_, ?_, ?_⟩
  · obtain ⟨c, hc⟩ : ∃ c, (load .reject Assembler.sampleClass).value = .ok c :=
      exists_eq_ok_of_isOk (by decide +kernel)
    obtain ⟨hlenient, hknown⟩ := hsample.accepted c hc
    exact ⟨c, hlenient, hknown, hsample.known c hlenient hknown⟩
  · obtain ⟨c, hc⟩ : ∃ c, (load .assumeFourBytes overhangingClass).value = .ok c :=
      exists_eq_ok_of_isOk (by decide +kernel)
    have hrefused : (load .reject overhangingClass).value = .error (.unknownTag 99) := rfl
    have hnot : ¬ c.pool.AllKnown := by
      intro hall
      cases hrefused.symm.trans (hguessed.known c hc hall)
    obtain ⟨index, number, hfirst, hnumber⟩ := hguessed.unknown c hc hnot
    cases hrefused.symm.trans hnumber
    exact ⟨c, index, hc, hfirst, hrefused⟩
  · have hrefused : (load .reject cutInText).value = .error (.outOfBounds 21 14) := rfl
    exact ⟨hrefused, hcut.rejected _ hrefused fun number h => by cases h⟩

end ClassRelay.ClassFile
