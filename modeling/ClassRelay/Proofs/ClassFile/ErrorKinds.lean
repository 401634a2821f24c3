import ClassRelay.Assembler.Sample
import ClassRelay.ClassFile.Names
import ClassRelay.Proofs.ClassFile.Layout
import ClassRelay.Proofs.ClassFile.Pool.Walk

/-!
# Where errors come from

The kinds of errors split in two, and so do the operations (`load_splits_errors`):

* **Loading** fails with structural errors only: the class is rejected as a whole.
* **Questions to a loaded class** fail with lookup errors only. They read the bytes again, by
  reads that could run past their end, but never do: behind the offset of a slot stands a whole
  entry, which is what `Pool.Indexes` says of every accepted class.

Room for a table is taken to be there (`Pool.scan`), so no error is one of allocation.
-/

namespace ClassRelay.ClassFile

variable {α β : Type} {policy : UnknownTagPolicy} {b : ByteArray} {offset : Nat}

namespace ClassError

/-- The error rejects a class as a whole and answers no question. -/
structure Rejects (e : ClassError) : Prop where
  isStructural_eq : e.isStructural = true
  isLookup_eq : e.isLookup = false

/-- The error answers a question. It does not tell of bytes that are missing or cannot be read. -/
structure AnswersQuestion (e : ClassError) : Prop where
  isStructural_eq : e.isStructural = false
  isLookup_eq : e.isLookup = true
  ne_outOfBounds : ∀ index size, e ≠ .outOfBounds index size
  ne_tooSmall : ∀ size required, e ≠ .tooSmall size required
  ne_unknownTag : ∀ number, e ≠ .unknownTag number

theorem rejects_of_isStructural {e : ClassError} (h : e.isStructural = true) : e.Rejects :=
  ⟨h, by rw [isLookup, h]; rfl⟩

theorem answersQuestion_of_isStructural {e : ClassError} (h : e.isStructural = false) :
    e.AnswersQuestion := by
  refine ⟨h, by rw [isLookup, h]; rfl, ?_, ?_, ?_⟩
  · rintro index size rfl
    cases h
  · rintro size required rfl
    cases h
  · rintro number rfl
    cases h

end ClassError

open ClassError (Rejects AnswersQuestion rejects_of_isStructural answersQuestion_of_isStructural)

/-! ### The errors of a result -/

/-- If the result is an error, it satisfies `P`. -/
def FailsOnlyWith (P : ClassError → Prop) (r : Except ClassError α) : Prop :=
  ∀ e, r = .error e → P e

namespace FailsOnlyWith

variable {P : ClassError → Prop} {r : Except ClassError α}

theorem ok (a : α) : FailsOnlyWith P (.ok a : Except ClassError α) := by
  intro e h
  cases h

theorem error {e : ClassError} (h : P e) : FailsOnlyWith P (.error e : Except ClassError α) := by
  rintro _ ⟨⟩
  exact h

/-- Operations in sequence fail with the errors of each. -/
theorem bind {f : α → Except ClassError β} (hr : FailsOnlyWith P r)
    (hf : ∀ a, FailsOnlyWith P (f a)) : FailsOnlyWith P (r >>= f) := by
  cases r with
  | error e => exact error (hr e rfl)
  | ok a => exact hf a

theorem map {f : α → β} (hr : FailsOnlyWith P r) : FailsOnlyWith P (f <$> r) := by
  cases r with
  | error e => exact error (hr e rfl)
  | ok a => exact ok (f a)

end FailsOnlyWith

/-! ### Loading -/

theorem readU8_rejects (b : ByteArray) (offset : Nat) :
    FailsOnlyWith Rejects (readU8 b offset) := by
  rw [readU8]
  split
  · exact .ok _
  · exact .error (rejects_of_isStructural rfl)

theorem readU16_rejects (b : ByteArray) (offset : Nat) :
    FailsOnlyWith Rejects (readU16 b offset) := by
  rw [readU16]
  split
  · exact .ok _
  · exact .error (rejects_of_isStructural rfl)

theorem checkStart_rejects (b : ByteArray) : FailsOnlyWith Rejects (checkStart b) := by
  rw [checkStart]
  split
  · exact .error (rejects_of_isStructural rfl)
  · split
    · exact .error (rejects_of_isStructural rfl)
    · exact .ok _

theorem ofUnknown_rejects (policy : UnknownTagPolicy) (number : UInt8) :
    FailsOnlyWith Rejects (Extent.ofUnknown policy number) := by
  cases policy with
  | reject => exact .error (rejects_of_isStructural rfl)
  | assumeFourBytes => exact .ok _

/-- Measuring an entry fails where its bytes end, or at a tag byte that is refused. -/
theorem extent_read_rejects (policy : UnknownTagPolicy) (b : ByteArray) (offset : Nat) :
    FailsOnlyWith Rejects (Extent.read policy b offset) := by
  refine (readU8_rejects b offset).bind fun number => ?_
  split
  · exact ofUnknown_rejects policy number
  · split
    · exact .ok _
    · exact (readU16_rejects b (offset + 1)).bind fun size => .ok _

/-- The scan passes on the errors of the entries that it measures, and adds one for an entry
that reaches past the end. -/
theorem scanFrom_rejects (policy : UnknownTagPolicy) (b : ByteArray) (room cursor : Nat)
    (offsets : Array (Option Nat)) (warnings : Array Warning) :
    FailsOnlyWith Rejects (Pool.scanFrom policy b room cursor offsets warnings).value := by
  fun_induction Pool.scanFrom policy b room cursor offsets warnings with
  | case1 => exact .ok _
  | case2 cursor offsets warnings room e he =>
    exact .error (extent_read_rejects policy b cursor e he)
  | case3 => exact .error (rejects_of_isStructural rfl)
  | case4 _ _ _ _ _ _ _ _ _ ih => exact ih
  | case5 _ _ _ _ _ _ _ _ _ _ ih => exact ih
  | case6 _ _ _ _ _ _ _ _ _ _ ih => exact ih

theorem scan_rejects (policy : UnknownTagPolicy) (b : ByteArray) :
    FailsOnlyWith Rejects (Pool.scan policy b).value := by
  rw [Pool.scan]
  split
  next e he => exact .error (readU16_rejects b poolCountOffset e he)
  next count _ =>
    split
    · exact .ok _
    · exact scanFrom_rejects policy b _ _ _ _

theorem ofPool_rejects (p : Pool) : FailsOnlyWith Rejects (ofPool p) := by
  simp only [ofPool]
  split
  · split
    · exact .ok _
    · exact .error (rejects_of_isStructural rfl)
  · exact .error (rejects_of_isStructural rfl)

theorem parse_rejects (policy : UnknownTagPolicy) (b : ByteArray) :
    FailsOnlyWith Rejects (parse policy b).value := by
  rw [parse]
  split
  next e he => exact .error (checkStart_rejects b e he)
  next => exact (scan_rejects policy b).bind ofPool_rejects

/-! ### Looking up -/

theorem asTag_answers (index : UInt16) (e : Entry) :
    FailsOnlyWith AnswersQuestion (e.asTag index) := by
  rw [Entry.asTag]
  split
  · exact .ok _
  · exact .error (answersQuestion_of_isStructural rfl)

/-- An entry of another tag than the one that is asked for. -/
private theorem wrongTag_answers (index : UInt16) (expected : Tag) (e : Entry) :
    FailsOnlyWith AnswersQuestion
      ((e.asTag index).bind fun actual => (.error (.wrongTag expected actual) : Except _ α)) :=
  (asTag_answers index e).bind fun _ => .error (answersQuestion_of_isStructural rfl)

theorem asUtf8_answers (index : UInt16) (e : Entry) :
    FailsOnlyWith AnswersQuestion (e.asUtf8 index) := by
  rw [Entry.asUtf8.eq_def]
  split
  · exact .ok _
  · exact wrongTag_answers index .utf8 _

theorem asClassRef_answers (index : UInt16) (e : Entry) :
    FailsOnlyWith AnswersQuestion (e.asClassRef index) := by
  rw [Entry.asClassRef.eq_def]
  split
  · exact .ok _
  · exact wrongTag_answers index .classRef _

namespace Pool

variable {p : Pool} {es : List Entry}

/-- Finding the offset of a slot reads no bytes. -/
theorem offset_answers (p : Pool) (index : UInt16) :
    FailsOnlyWith AnswersQuestion (p.offset index) := by
  rw [offset]
  split
  · exact .ok _
  · exact .error (answersQuestion_of_isStructural rfl)
  · exact .error (answersQuestion_of_isStructural rfl)

namespace Indexes

/-- Behind an offset stands an entry, so that only the offset can be missing. -/
theorem get_answers (h : p.Indexes policy es) (index : UInt16) :
    FailsOnlyWith AnswersQuestion (p.get index) := by
  cases ho : p.offset index with
  | error e =>
    rw [get, ho]
    exact .error (p.offset_answers index e ho)
  | ok o =>
    obtain ⟨e, he⟩ := h.exists_decode ho
    have hget : p.get index = .ok e := by
      rw [get, ho]
      exact he
    rw [hget]
    exact .ok e

theorem tag_answers (h : p.Indexes policy es) (index : UInt16) :
    FailsOnlyWith AnswersQuestion (p.tag index) := by
  rw [h.tag_eq]
  exact (h.get_answers index).bind (asTag_answers index)

theorem utf8_answers (h : p.Indexes policy es) (index : UInt16) :
    FailsOnlyWith AnswersQuestion (p.utf8 index) := by
  rw [h.utf8_eq]
  exact (h.get_answers index).bind (asUtf8_answers index)

theorem rawClassName_answers (h : p.Indexes policy es) (index : UInt16) :
    FailsOnlyWith AnswersQuestion (p.rawClassName index) := by
  rw [h.rawClassName_eq]
  exact ((h.get_answers index).bind (asClassRef_answers index)).bind h.utf8_answers

theorem className_answers (decode : NameDecoder) (h : p.Indexes policy es) (index : UInt16) :
    FailsOnlyWith AnswersQuestion (p.className decode index) := by
  refine (h.rawClassName_answers index).bind fun bytes => ?_
  split
  · exact .ok _
  · exact .error (answersQuestion_of_isStructural rfl)

/-- From every position, a step of a walk gives an entry or nothing. -/
theorem exists_of_next (h : p.Indexes policy es) {position : Nat}
    {item : UInt16 × Except ClassError Entry} (hitem : (Cursor.next ⟨p, position⟩).1 = some item) :
    ∃ e, item.2 = .ok e := by
  by_cases hlt : nextSlot p.offsets position < p.count
  · rw [Cursor.next_of_lt rfl hlt] at hitem
    obtain rfl := Option.some.inj hitem
    obtain ⟨o, ho⟩ := getElem?_nextSlot hlt
    have hindex : (UInt16.ofNat (nextSlot p.offsets position)).toNat =
        nextSlot p.offsets position := by
      have hcount := h.count_lt
      rw [UInt16.toNat_ofNat']
      omega
    have hoffset : p.offset (UInt16.ofNat (nextSlot p.offsets position)) = .ok o := by
      rw [offset, hindex, ho]
    obtain ⟨e, he⟩ := h.exists_decode hoffset
    refine ⟨e, ?_⟩
    rw [get, hoffset]
    exact he
  · rw [Cursor.next_of_le (Nat.not_lt.mp hlt)] at hitem
    cases hitem

end Indexes

end Pool

/-! ### Loaded classes -/

/-- What a loaded class is asked fails with lookup errors only, whatever decoder reads the names. -/
structure AnswersQuestions (c : ClassFile) : Prop where
  get : ∀ index, FailsOnlyWith AnswersQuestion (c.pool.get index)
  tag : ∀ index, FailsOnlyWith AnswersQuestion (c.pool.tag index)
  utf8 : ∀ index, FailsOnlyWith AnswersQuestion (c.pool.utf8 index)
  rawClassName : ∀ index, FailsOnlyWith AnswersQuestion (c.pool.rawClassName index)
  className : ∀ decode index, FailsOnlyWith AnswersQuestion (c.pool.className decode index)
  resolveName : ∀ decode, FailsOnlyWith AnswersQuestion (c.resolveName decode)
  resolveSuper : ∀ decode, FailsOnlyWith AnswersQuestion (c.resolveSuper decode)
  interfaceIndex : ∀ position, FailsOnlyWith AnswersQuestion (c.interfaceIndex position)
  interfaceName : ∀ decode position,
    FailsOnlyWith AnswersQuestion (c.interfaceName decode position).value
  /-- So does every item of a walk over the interfaces, wherever the walk stands. -/
  nextInterface : ∀ decode position item,
    (InterfaceCursor.next decode ⟨c, position⟩).1.value = some item →
      FailsOnlyWith AnswersQuestion item
  /-- No item of a walk over the pool is an error, wherever the walk stands. -/
  nextEntry : ∀ position item,
    (Pool.Cursor.next ⟨c.pool, position⟩).1 = some item → ∃ e, item.2 = .ok e
  /-- The same for the items of a whole walk. -/
  entries : ∀ item ∈ c.pool.entries, ∃ e, item.2 = .ok e

/-- A pool that is the index of entries leaves only lookup errors. -/
theorem Pool.Indexes.answersQuestions {c : ClassFile} {es : List Entry}
    (h : c.pool.Indexes policy es) : AnswersQuestions c := by
  have hinterfaceIndex : ∀ position, FailsOnlyWith AnswersQuestion (c.interfaceIndex position) := by
    intro position
    rw [interfaceIndex]
    split
    · exact .ok _
    · exact .error (answersQuestion_of_isStructural rfl)
  have hinterfaceName : ∀ decode position,
      FailsOnlyWith AnswersQuestion (c.interfaceName decode position).value := by
    intro decode position
    rw [interfaceName, Logged.value_onError]
    exact (hinterfaceIndex position).bind (h.className_answers decode)
  refine
    { get := h.get_answers
      tag := h.tag_answers
      utf8 := h.utf8_answers
      rawClassName := h.rawClassName_answers
      className := fun decode => h.className_answers decode
      resolveName := fun decode => h.className_answers decode _
      resolveSuper := fun decode => ?_
      interfaceIndex := hinterfaceIndex
      interfaceName := hinterfaceName
      nextInterface := fun decode position item hitem => ?_
      nextEntry := fun _ _ => h.exists_of_next
      entries := fun item hitem => ?_ }
  · rw [resolveSuper]
    split
    · exact .ok _
    · exact (h.className_answers decode _).map
  · rw [InterfaceCursor.next] at hitem
    split at hitem
    · obtain rfl := Option.some.inj hitem
      exact hinterfaceName decode position
    · cases hitem
  · rw [h.entries_eq] at hitem
    obtain ⟨q, -, rfl⟩ := List.mem_map.mp hitem
    exact ⟨q.entry, rfl⟩

/-- **The two halves of the errors.** Bytes that are not accepted are rejected with a structural
error; once they are, no question is answered with one, and every entry can be shown. -/
theorem load_splits_errors (policy : UnknownTagPolicy) (b : ByteArray) :
    FailsOnlyWith Rejects (load policy b).value ∧
    ∀ c, (load policy b).value = .ok c → AnswersQuestions c := by
  rw [value_load]
  refine ⟨parse_rejects policy b, fun c hc => ?_⟩
  obtain ⟨l, hl, -, rfl⟩ := Layout.parse_eq_ok_iff.mp hc
  exact hl.indexes.answersQuestions

/-- The sample class is rejected when it is cut. When it is whole, a question to it may still
fail: slot zero holds no entry, so no decoder reads a name there. -/
theorem load_splits_errors_sample :
    (∃ e, (load .reject (Assembler.sampleClass.extract 0 20)).value = .error e ∧ e.Rejects) ∧
    ∃ c e, (load .reject Assembler.sampleClass).value = .ok c ∧ AnswersQuestions c ∧
      (∀ decode, c.pool.className decode 0 = .error e) ∧ e.AnswersQuestion := by
  constructor
  · obtain ⟨e, he⟩ : ∃ e, (load .reject (Assembler.sampleClass.extract 0 20)).value = .error e :=
      exists_eq_error_of_isOk (by decide +kernel)
    exact ⟨e, he, (load_splits_errors .reject _).1 e he⟩
  · obtain ⟨c, hc⟩ : ∃ c, (load .reject Assembler.sampleClass).value = .ok c :=
      exists_eq_ok_of_isOk (by decide +kernel)
    have hanswers : AnswersQuestions c := (load_splits_errors .reject _).2 c hc
    obtain ⟨e, he⟩ : ∃ e, ((load .reject Assembler.sampleClass).value.bind
        fun c => c.pool.rawClassName 0) = .error e := exists_eq_error_of_isOk (by decide +kernel)
    rw [hc] at he
    exact ⟨c, e, hc, hanswers, fun decode => Pool.className_of_rawClassName_error he,
      hanswers.rawClassName 0 e he⟩

end ClassRelay.ClassFile
