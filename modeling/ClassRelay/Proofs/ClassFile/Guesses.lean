import ClassRelay.Proofs.ClassFile.Pool.Walk
import ClassRelay.Proofs.ClassFile.Tiling
import ClassRelay.Proofs.ClassFile.Truncation

/-!
# Every guess is reported

A scan that steps over an unknown tag guesses how far the entry reaches, and if the guess is wrong
so is all that is read behind it. What loading emits tells every such guess
(`load_reveals_guesses`):

* For **accepted** bytes these are the entries under unknown tags that a walk over the pool meets.
  There is one warning for each of them, in order, and no other one.
* For **refused** bytes there is no pool to walk. Which tags a scan comes to is told by the bytes
  alone: it starts in slot one, and from a slot where an entry is written it goes on behind that
  entry (`Reaches`). There is one warning for each unknown tag in a slot that is reached, whether
  the four bytes behind the tag are there or not, in the order of the slots. The refusal comes
  last.

Nothing is guessed where unknown tags are refused, so no warning but the refusal is emitted then.
-/

namespace ClassRelay.ClassFile

open BigEndian

variable {policy : UnknownTagPolicy} {b : ByteArray} {count slot offset s o : Nat} {e : Entry}
variable {number : UInt8}

/-! ### Guesses -/

/-- An unknown tag that a scan guessed the size of, and the slot of it. -/
structure Guess where
  number : UInt8
  slot : Nat
  deriving DecidableEq

/-- The warning that reveals a guess. -/
def Guess.warning (g : Guess) : Warning :=
  .guessed g.number g.slot

/-- A guess is told by its warning. -/
theorem Guess.warning_inj {g g' : Guess} (h : g.warning = g'.warning) : g = g' := by
  cases g
  cases g'
  cases h
  rfl

/-- At `offset` stands an unknown tag, and its size is guessed. -/
structure GuessedAt (policy : UnknownTagPolicy) (b : ByteArray) (offset : Nat) (number : UInt8) :
    Prop where
  policy_eq : policy = .assumeFourBytes
  ofNumber?_eq : Tag.ofNumber? number = none
  holdsAt : HoldsAt b offset (ByteArray.empty.push number)

/-- From `slot` at `offset` on, a scan passes entries and comes to another slot and offset, below
the declared count. -/
inductive Reaches (policy : UnknownTagPolicy) (b : ByteArray) (count : Nat) :
    Nat → Nat → Nat → Nat → Prop
  /-- It is there already. -/
  | here {slot offset : Nat} (h : slot < count) : Reaches policy b count slot offset slot offset
  /-- It passes an entry first. -/
  | step {slot offset s o : Nat} {e : Entry} (h : slot < count) (he : e.Allowed policy)
      (hb : HoldsAt b offset e.encode)
      (hrest : Reaches policy b count (slot + e.slots) (offset + e.encode.size) s o) :
      Reaches policy b count slot offset s o

/-- The guess `g` is made by a scan that goes on from `slot` at `offset`. -/
def GuessedFrom (policy : UnknownTagPolicy) (b : ByteArray) (count slot offset : Nat) (g : Guess) :
    Prop :=
  ∃ o, Reaches policy b count slot offset g.slot o ∧ GuessedAt policy b o g.number

/-- The guess `g` is made when the bytes are loaded: they start as class bytes do, and from its
first slot on the pool leads to the guess. -/
structure Guessed (policy : UnknownTagPolicy) (b : ByteArray) (g : Guess) : Prop where
  holdsAt_magic : HoldsAt b 0 (encode32 magic)
  lt_size : poolStart < b.size
  guessedFrom : ∃ count : UInt16, HoldsAt b poolCountOffset (encode16 count) ∧
    GuessedFrom policy b count.toNat 1 poolStart g

/-- The list holds all guesses that are so and no others, in the order of their slots. -/
structure ListsAll (guesses : List Guess) (isSo : Guess → Prop) : Prop where
  increasing : guesses.Pairwise fun g g' => g.slot < g'.slot
  mem_iff : ∀ g, g ∈ guesses ↔ isSo g

/-- Where nothing is guessed, the list is empty. -/
theorem listsAll_nil {isSo : Guess → Prop} (h : ∀ g, ¬ isSo g) : ListsAll [] isSo where
  increasing := .nil
  mem_iff g := iff_of_false List.not_mem_nil (h g)

/-! ### The guess in one slot -/

namespace Extent

/-- Where a size is guessed, the extent is found. -/
theorem read_of_guessedAt (h : GuessedAt policy b offset number) :
    Extent.read policy b offset = .ok ⟨guessedSize, false, some number⟩ := by
  obtain ⟨rfl, htag, hb⟩ := h
  refine bind_eq_ok_iff.mpr ⟨number, readU8_eq_ok_iff.mpr hb, ?_⟩
  rw [htag]
  rfl

/-- The size of an entry under a known tag is no guess. -/
theorem guess?_of_known {extent : Extent} {tag : Tag} (hnumber : readU8 b offset = .ok number)
    (htag : Tag.ofNumber? number = some tag) (h : Extent.read policy b offset = .ok extent) :
    extent.guess? = none := by
  rw [Extent.read, hnumber] at h
  dsimp only [bind, Except.bind] at h
  rw [htag] at h
  dsimp only at h
  cases hsize : tag.payloadSize? with
  | some size =>
    rw [hsize] at h
    cases h
    rfl
  | none =>
    rw [hsize] at h
    obtain ⟨length, -, h⟩ := bind_eq_ok_iff.mp h
    cases h
    rfl

/-- The size of an entry is a guess exactly when its tag is unknown. -/
theorem guess?_eq_some_iff {extent : Extent} (h : Extent.read policy b offset = .ok extent) :
    extent.guess? = some number ↔ GuessedAt policy b offset number := by
  constructor
  · intro hguess
    obtain ⟨found, hfound, hrest⟩ := bind_eq_ok_iff.mp h
    cases htag : Tag.ofNumber? found with
    | some tag =>
      rw [guess?_of_known hfound htag h] at hguess
      cases hguess
    | none =>
      simp only [htag] at hrest
      cases policy with
      | reject => cases hrest
      | assumeFourBytes =>
        cases hrest
        cases hguess
        exact ⟨rfl, htag, readU8_eq_ok_iff.mp hfound⟩
  · intro hguess
    rw [read_of_guessedAt hguess] at h
    cases h
    rfl

end Extent

/-- The guess that is made in `slot` at `offset`, if one is. -/
def guess? (policy : UnknownTagPolicy) (b : ByteArray) (slot offset : Nat) : Option Guess :=
  match Extent.read policy b offset with
  | .ok extent => extent.guess?.map fun number => ⟨number, slot⟩
  | .error _ => none

theorem guess?_of_ok {extent : Extent} (h : Extent.read policy b offset = .ok extent) :
    guess? policy b slot offset = extent.guess?.map fun number => ⟨number, slot⟩ := by
  rw [guess?, h]

theorem guess?_of_error {error : ClassError} (h : Extent.read policy b offset = .error error) :
    guess? policy b slot offset = none := by
  rw [guess?, h]

theorem guess?_eq_some_iff {g : Guess} : guess? policy b slot offset = some g ↔
    g.slot = slot ∧ GuessedAt policy b offset g.number := by
  cases h : Extent.read policy b offset with
  | error error =>
    rw [guess?_of_error h]
    refine iff_of_false (by simp) fun hguess => ?_
    rw [Extent.read_of_guessedAt hguess.2] at h
    cases h
  | ok extent =>
    rw [guess?_of_ok h, Option.map_eq_some_iff, ← Extent.guess?_eq_some_iff h]
    constructor
    · rintro ⟨number, hnumber, rfl⟩
      exact ⟨rfl, hnumber⟩
    · rintro ⟨rfl, hnumber⟩
      exact ⟨g.number, hnumber, rfl⟩

/-- The warnings that a step of the scan adds reveal the guess in its slot. -/
theorem toList_warn_eq {extent : Extent} (h : Extent.read policy b offset = .ok extent)
    (warnings : Array Warning) : (extent.warn slot warnings).toList =
      warnings.toList ++ (guess? policy b slot offset).toList.map Guess.warning := by
  rw [Extent.toList_warn, guess?_of_ok h]
  cases extent.guess? <;> rfl

/-! ### The guesses from a slot on -/

theorem Reaches.le_slot (h : Reaches policy b count slot offset s o) : slot ≤ s := by
  induction h with
  | here => exact Nat.le_refl _
  | step h he hb hrest ih => exact Nat.le_of_add_right_le ih

/-- No slot is reached where none is left. -/
theorem not_guessedFrom (h : count ≤ slot) (g : Guess) :
    ¬ GuessedFrom policy b count slot offset g := by
  rintro ⟨o, hreaches, -⟩
  cases hreaches with
  | here hlt => exact absurd hlt (Nat.not_lt.mpr h)
  | step hlt => exact absurd hlt (Nat.not_lt.mpr h)

/-- Where no entry is written, only the tag in this slot can be guessed. -/
theorem guessedFrom_iff_of_stuck {g : Guess} (h : slot < count)
    (hstuck : ¬ ∃ e : Entry, e.Allowed policy ∧ HoldsAt b offset e.encode) :
    GuessedFrom policy b count slot offset g ↔
      g.slot = slot ∧ GuessedAt policy b offset g.number := by
  constructor
  · rintro ⟨o, hreaches, hguess⟩
    cases hreaches with
    | here => exact ⟨rfl, hguess⟩
    | step _ he hb => exact absurd ⟨_, he, hb⟩ hstuck
  · rintro ⟨hslot, hguess⟩
    exact ⟨offset, by rw [hslot]; exact .here h, hguess⟩

/-- Where an entry is written, the guesses are the one in this slot and those behind the entry. -/
theorem guessedFrom_iff_of_holdsAt {g : Guess} (h : slot < count) (he : e.Allowed policy)
    (hb : HoldsAt b offset e.encode) : GuessedFrom policy b count slot offset g ↔
      (g.slot = slot ∧ GuessedAt policy b offset g.number) ∨
        GuessedFrom policy b count (slot + e.slots) (offset + e.encode.size) g := by
  constructor
  · rintro ⟨o, hreaches, hguess⟩
    cases hreaches with
    | here => exact .inl ⟨rfl, hguess⟩
    | step _ he' hb' hrest =>
      have heq := Entry.encode_unique he'.representable he.representable hb' hb
      subst heq
      exact .inr ⟨o, hrest, hguess⟩
  · rintro (⟨hslot, hguess⟩ | ⟨o, hrest, hguess⟩)
    · exact ⟨offset, by rw [hslot]; exact .here h, hguess⟩
    · exact ⟨o, .step h he hb hrest, hguess⟩

/-- The list for a slot where no entry is written. -/
theorem listsAll_of_stuck (h : slot < count)
    (hstuck : ¬ ∃ e : Entry, e.Allowed policy ∧ HoldsAt b offset e.encode) :
    ListsAll (guess? policy b slot offset).toList (GuessedFrom policy b count slot offset) where
  increasing := by cases guess? policy b slot offset <;> simp
  mem_iff g := by
    rw [Option.mem_toList, guess?_eq_some_iff, guessedFrom_iff_of_stuck h hstuck]

/-- The list for a slot where an entry is written. -/
theorem listsAll_of_holdsAt {guesses : List Guess} (h : slot < count) (he : e.Allowed policy)
    (hb : HoldsAt b offset e.encode) (hrest : ListsAll guesses
      (GuessedFrom policy b count (slot + e.slots) (offset + e.encode.size))) :
    ListsAll ((guess? policy b slot offset).toList ++ guesses)
      (GuessedFrom policy b count slot offset) where
  increasing := by
    refine List.pairwise_append.mpr
      ⟨by cases guess? policy b slot offset <;> simp, hrest.increasing, fun g hg g' hg' => ?_⟩
    rw [Option.mem_toList, guess?_eq_some_iff] at hg
    obtain ⟨o, hreaches, -⟩ := (hrest.mem_iff g').mp hg'
    have hle := hreaches.le_slot
    have hone := e.one_le_slots
    omega
  mem_iff g := by
    rw [List.mem_append, Option.mem_toList, guess?_eq_some_iff, hrest.mem_iff,
      guessedFrom_iff_of_holdsAt h he hb]

/-! ### A whole scan -/

namespace Pool

/-- A scan that meets no written entry ends there. If it got as far as an unknown tag, it has
guessed the size of that. -/
theorem log_scanFrom_of_stuck {room cursor : Nat} {offsets : Array (Option Nat)}
    {warnings : Array Warning}
    (hstuck : ¬ ∃ e : Entry, e.Allowed policy ∧ HoldsAt b cursor e.encode) :
    (scanFrom policy b (room + 1) cursor offsets warnings).log =
      warnings.toList ++ (guess? policy b offsets.size cursor).toList.map Guess.warning := by
  cases hread : Extent.read policy b cursor with
  | error error =>
    rw [scanFrom, hread, guess?_of_error hread]
    exact (List.append_nil _).symm
  | ok extent =>
    rcases Nat.lt_or_ge b.size (cursor + 1 + extent.payload) with hcut | hwhole
    · rw [← toList_warn_eq hread, scanFrom, hread]
      simp only [if_pos hcut]
    · obtain ⟨e, he, hb, -⟩ := Entry.exists_of_read_extent hread hwhole
      exact absurd ⟨e, he, hb⟩ hstuck

/-- **The scan reveals its guesses**, wherever it ends. -/
theorem exists_listsAll_scanFrom {cursor : Nat} {offsets : Array (Option Nat)}
    {warnings : Array Warning} (hsize : offsets.size = min slot count) :
    ∃ guesses, ListsAll guesses (GuessedFrom policy b count slot cursor) ∧
      (scanFrom policy b (count - slot) cursor offsets warnings).log =
        warnings.toList ++ guesses.map Guess.warning := by
  -- A wide entry takes two slots, so the induction is on the room that is left.
  induction hn : count - slot using Nat.strongRecOn generalizing slot cursor offsets warnings with
  | ind n ih =>
    cases n with
    | zero =>
      refine ⟨[], listsAll_nil (not_guessedFrom (Nat.le_of_sub_eq_zero hn)), ?_⟩
      rw [scanFrom]
      exact (List.append_nil _).symm
    | succ room =>
      have hlt : slot < count := by omega
      by_cases hentry : ∃ e : Entry, e.Allowed policy ∧ HoldsAt b cursor e.encode
      · obtain ⟨e, he, hb⟩ := hentry
        have hone := e.one_le_slots
        obtain ⟨guesses, hall, hlog⟩ :=
          ih (count - (slot + e.slots)) (by omega) (size_pushEntry_eq_min hn hsize) rfl
        refine ⟨_, listsAll_of_holdsAt hlt he hb hall, ?_⟩
        rw [scanFrom_step he hb, ← hn, Nat.sub_sub, hlog, hsize, Nat.min_eq_left (Nat.le_of_lt hlt),
          toList_warn_eq (Entry.read_extent he hb), List.append_assoc, List.map_append]
      · refine ⟨_, listsAll_of_stuck hlt hentry, ?_⟩
        rw [log_scanFrom_of_stuck hentry, hsize, Nat.min_eq_left (Nat.le_of_lt hlt)]

/-- The scan of a pool reveals the guesses from its first slot on. -/
theorem exists_listsAll_scan {count : UInt16} (hcount : readU16 b poolCountOffset = .ok count) :
    ∃ guesses, ListsAll guesses (GuessedFrom policy b count.toNat 1 poolStart) ∧
      (scan policy b).log = guesses.map Guess.warning := by
  rcases Nat.eq_zero_or_pos count.toNat with hzero | hpos
  · refine ⟨[], listsAll_nil (not_guessedFrom (by omega)), ?_⟩
    rw [scan_of_count_zero hcount hzero]
    rfl
  · rw [scan_of_count hcount hpos]
    exact exists_listsAll_scanFrom (Nat.min_eq_left hpos).symm

end Pool

/-- In bytes that are let in, the guesses are those from the first slot on. -/
theorem guessed_iff {count : UInt16} {g : Guess} (hstart : checkStart b = .ok ())
    (hcount : readU16 b poolCountOffset = .ok count) :
    Guessed policy b g ↔ GuessedFrom policy b count.toNat 1 poolStart g := by
  constructor
  · rintro ⟨-, -, count', hcount', hg⟩
    cases hcount.symm.trans (readU16_eq_ok_iff.mpr hcount')
    exact hg
  · intro hg
    obtain ⟨hmagic, hlt⟩ := checkStart_eq_ok_iff.mp hstart
    exact ⟨hmagic, hlt, count, readU16_eq_ok_iff.mp hcount, hg⟩

/-- Reading class bytes reveals its guesses, whether they are accepted or not. -/
theorem exists_listsAll_parse (policy : UnknownTagPolicy) (b : ByteArray) :
    ∃ guesses, ListsAll guesses (Guessed policy b) ∧
      (parse policy b).log = guesses.map Guess.warning := by
  cases hstart : checkStart b with
  | error error =>
    refine ⟨[], listsAll_nil fun g hg => ?_, by rw [parse, hstart]; rfl⟩
    rw [checkStart_eq_ok_iff.mpr ⟨hg.holdsAt_magic, hg.lt_size⟩] at hstart
    cases hstart
  | ok =>
    have hlt : poolStart < b.size := (checkStart_eq_ok_iff.mp hstart).2
    have hcount := @readU16_of_le b poolCountOffset (Nat.le_of_lt hlt)
    obtain ⟨guesses, hall, hlog⟩ := @Pool.exists_listsAll_scan policy b _ hcount
    refine ⟨guesses, ⟨hall.increasing, fun g => ?_⟩, ?_⟩
    · rw [hall.mem_iff, guessed_iff hstart hcount]
    · rw [parse, hstart]
      exact hlog

/-! ### Loading -/

/-- The warning about an item of a walk, if that is an entry under an unknown tag. -/
def Pool.itemWarning? : UInt16 × Except ClassError Entry → Option Warning
  | (index, .ok (.unknown number _)) => some (.guessed number index.toNat)
  | _ => none

/-- A walk meets the entries whose size was guessed as entries under unknown tags. -/
theorem Pool.Indexes.filterMap_itemWarning? {p : Pool} {es : List Entry}
    (h : p.Indexes policy es) :
    p.entries.filterMap Pool.itemWarning? = (places es).filterMap Placement.warning? := by
  have hitems : (places es).map (itemWarning? ∘ Placement.item) =
      (places es).map Placement.warning? := by
    refine List.map_congr_left fun q hq => ?_
    have hslot := h.toNat_ofNat_slot hq
    rw [Function.comp, Placement.item, Placement.warning?]
    cases q.entry with
    | unknown number bits => rw [itemWarning?, hslot]; rfl
    | _ => rfl
  have hid : ∀ f : Placement → Option Warning,
      (places es).filterMap f = ((places es).map f).filterMap id := fun f => by
    rw [List.filterMap_map]
    rfl
  rw [h.entries_eq, List.filterMap_map, hid, hitems, ← hid]

/-- What loading emits reveals every guess. -/
structure RevealsGuesses (policy : UnknownTagPolicy) (b : ByteArray) : Prop where
  /-- For accepted bytes there is one warning for each entry under an unknown tag that a walk
  meets, in order. -/
  accepted : ∀ c, (load policy b).value = .ok c →
    (load policy b).log = c.pool.entries.filterMap Pool.itemWarning?
  /-- For refused bytes there is one warning for each guess, in the order of the slots, and then
  the refusal. -/
  refused : ∀ error, (load policy b).value = .error error →
    ∃ guesses, ListsAll guesses (Guessed policy b) ∧
      (load policy b).log = guesses.map Guess.warning ++ [.rejected b.size error]
  /-- Unless sizes are guessed, accepted bytes give no warning. -/
  accepted_reject : policy = .reject → ∀ c, (load policy b).value = .ok c →
    (load policy b).log = []
  /-- And refused bytes give none but the refusal. -/
  refused_reject : policy = .reject → ∀ error, (load policy b).value = .error error →
    (load policy b).log = [.rejected b.size error]

/-- Nothing is guessed where unknown tags are refused. -/
theorem not_guessed_reject (g : Guess) : ¬ Guessed .reject b g := by
  rintro ⟨-, -, count, -, o, -, hguess⟩
  cases hguess.policy_eq

theorem log_parse_reject (b : ByteArray) : (parse .reject b).log = [] := by
  obtain ⟨guesses, hall, hlog⟩ := exists_listsAll_parse .reject b
  have hnil : guesses = [] := List.eq_nil_iff_forall_not_mem.mpr fun g hg =>
    not_guessed_reject g ((hall.mem_iff g).mp hg)
  rw [hlog, hnil]
  rfl

/-- **Every guess is reported**, and nothing else but the refusal. -/
theorem load_reveals_guesses (policy : UnknownTagPolicy) (b : ByteArray) :
    RevealsGuesses policy b where
  accepted c hc := by
    rw [log_load_of_eq_ok hc]
    rw [value_load] at hc
    obtain ⟨l, hl, rfl, rfl⟩ := Layout.parse_eq_ok_iff.mp hc
    rw [hl.log_parse_bytes, hl.indexes.filterMap_itemWarning?]
  refused error herror := by
    obtain ⟨guesses, hall, hlog⟩ := exists_listsAll_parse policy b
    exact ⟨guesses, hall, by rw [log_load_of_eq_error herror, hlog]⟩
  accepted_reject hpolicy c hc := by
    subst hpolicy
    rw [log_load_of_eq_ok hc, log_parse_reject]
  refused_reject hpolicy error herror := by
    subst hpolicy
    rw [log_load_of_eq_error herror, log_parse_reject]
    rfl

/-- Bytes with two unknown tags, which end behind the second one. -/
def cutBehindGuess : ByteArray :=
  ⟨#[0xCA, 0xFE, 0xBA, 0xBE, 0, 0, 0, 65, 0, 4, 99, 0, 0, 0, 0, 98, 0]⟩

theorem load_reveals_guesses_cutBehindGuess :
    (load .assumeFourBytes cutBehindGuess).log =
        [.guessed 99 1, .guessed 98 2, .rejected 17 (.outOfBounds 19 17)] ∧
      ListsAll [⟨99, 1⟩, ⟨98, 2⟩] (Guessed .assumeFourBytes cutBehindGuess) ∧
      (load .reject cutBehindGuess).log = [.rejected 17 (.unknownTag 99)] ∧
      (load .reject Assembler.sampleClass).log = [] ∧
      ∃ c, (load .assumeFourBytes overhangingClass).value = .ok c ∧
        (load .assumeFourBytes overhangingClass).log =
          c.pool.entries.filterMap Pool.itemWarning? ∧
        (load .assumeFourBytes overhangingClass).log = [.guessed 99 1] := by
  have hlog : (load .assumeFourBytes cutBehindGuess).log =
      [.guessed 99 1, .guessed 98 2, .rejected 17 (.outOfBounds 19 17)] := by
    decide +kernel
  refine ⟨hlog, ?_, ?_, ?_, ?_⟩
  · obtain ⟨guesses, hall, hguesses⟩ :=
      (load_reveals_guesses .assumeFourBytes cutBehindGuess).refused (.outOfBounds 19 17) rfl
    have hwarnings : guesses.map Guess.warning =
        [(⟨99, 1⟩ : Guess), ⟨98, 2⟩].map Guess.warning :=
      List.append_cancel_right (hguesses.symm.trans hlog)
    rwa [(List.map_inj_right fun _ _ => Guess.warning_inj).mp hwarnings] at hall
  · exact (load_reveals_guesses .reject cutBehindGuess).refused_reject rfl (.unknownTag 99) rfl
  · obtain ⟨c, hc⟩ : ∃ c, (load .reject Assembler.sampleClass).value = .ok c :=
      exists_eq_ok_of_isOk (by decide +kernel)
    exact (load_reveals_guesses .reject Assembler.sampleClass).accepted_reject rfl c hc
  · obtain ⟨c, hc⟩ : ∃ c, (load .assumeFourBytes overhangingClass).value = .ok c :=
      exists_eq_ok_of_isOk (by decide +kernel)
    exact ⟨c, hc, (load_reveals_guesses .assumeFourBytes overhangingClass).accepted c hc,
      by decide +kernel⟩

end ClassRelay.ClassFile
