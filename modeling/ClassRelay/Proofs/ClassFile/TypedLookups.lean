import ClassRelay.Proofs.ClassFile.WalkedSlots

/-!
# Lookups that ask for a tag

`Pool.get` decodes whatever entry stands in a slot. The lookups for a tag, for a text and for the
name of a class read the bytes on their own and take from them only what they need. This module
says that they never disagree with `Pool.get` (`Pool.AgreesOnTypes`):

* Where there is no entry, all of them **fail alike**; an entry under an unknown tag is no answer
  to any of them.
* For any other entry the tag is that of the entry, the text is the entry if that is a text, and
  the name is the text in the slot that the entry refers to if it is a class entry. Otherwise they
  fail with **the tag that was wanted and the one that is there**.

So a name is found in **exactly one step**. A class entry that refers to itself, to another class
entry, or to a slot without an entry fails at that slot; no reference is followed further.
-/

namespace ClassRelay.ClassFile

variable {policy : UnknownTagPolicy} {b : ByteArray} {c : ClassFile} {p : Pool} {es : List Entry}
variable {index : UInt16} {e : Entry} {tag : Tag}

/-! ### Questions to an entry -/

namespace Entry

theorem asTag_of_tag? (htag : e.tag? = some tag) : e.asTag index = .ok tag := by
  rw [asTag, htag]

theorem asUtf8_eq_ok_iff {text : ByteArray} : e.asUtf8 index = .ok text ↔ e = .utf8 text := by
  cases e with
  | utf8 t => rw [asUtf8, Except.ok.injEq, utf8.injEq]
  | _ => exact iff_of_false (fun h => by cases h) (fun h => by cases h)

theorem asUtf8_of_ne (htag : e.tag? = some tag) (hne : ∀ text, e ≠ .utf8 text) :
    e.asUtf8 index = .error (.wrongTag .utf8 tag) := by
  cases e with
  | utf8 text => exact absurd rfl (hne text)
  | unknown number bits => cases htag
  | _ => cases htag; rfl

theorem asClassRef_of_ne (htag : e.tag? = some tag) (hne : ∀ nameIndex, e ≠ .classRef nameIndex) :
    e.asClassRef index = .error (.wrongTag .classRef tag) := by
  cases e with
  | classRef nameIndex => exact absurd rfl (hne nameIndex)
  | unknown number bits => cases htag
  | _ => cases htag; rfl

/-- An entry that is asked for a text is never found to be no class entry. -/
theorem asUtf8_ne_wrongTag : e.asUtf8 index ≠ .error (.wrongTag .classRef tag) := by
  intro h
  cases e <;> cases h

/-- Every entry that is not under an unknown tag has a tag. -/
theorem exists_tag? (hne : ∀ number bits, e ≠ .unknown number bits) : ∃ tag, e.tag? = some tag := by
  cases e with
  | unknown number bits => exact absurd rfl (hne number bits)
  | _ => exact ⟨_, rfl⟩

end Entry

/-! ### Typed lookups of a slot -/

namespace Pool

/-- What the typed lookups say of slot `index`, which holds the entry `e` under the tag `tag`. -/
structure TypedAs (p : Pool) (index : UInt16) (e : Entry) (tag : Tag) : Prop where
  tag_eq : p.tag index = .ok tag
  /-- The text is the entry, if that is a text. -/
  utf8_ok_iff : ∀ text, p.utf8 index = .ok text ↔ e = .utf8 text
  /-- If not, the lookup tells the tag that is there. -/
  utf8_of_ne : (∀ text, e ≠ .utf8 text) → p.utf8 index = .error (.wrongTag .utf8 tag)
  /-- The name of a class is whatever the lookup of the text says that it refers to. -/
  rawClassName_of_eq : ∀ nameIndex, e = .classRef nameIndex →
    p.rawClassName index = p.utf8 nameIndex
  /-- If it is not a class entry, the lookup of no text gives the same answer. -/
  rawClassName_eq_utf8_iff :
    (∃ nameIndex, p.rawClassName index = p.utf8 nameIndex) ↔ ∃ nameIndex, e = .classRef nameIndex
  /-- If it is not, the lookup tells the tag that is there. -/
  rawClassName_of_ne : (∀ nameIndex, e ≠ .classRef nameIndex) →
    p.rawClassName index = .error (.wrongTag .classRef tag)

/-- The typed lookups of a pool say the same as the untyped one. -/
structure AgreesOnTypes (p : Pool) : Prop where
  /-- Where the untyped lookup fails, they fail with the same error. -/
  missing : ∀ index error, p.get index = .error error →
    p.tag index = .error error ∧ p.utf8 index = .error error ∧
      p.rawClassName index = .error error
  /-- They have no answer for an entry under an unknown tag. -/
  unknown : ∀ index number bits, p.get index = .ok (.unknown number bits) →
    p.tag index = .error (.opaqueEntry index number) ∧
      p.utf8 index = .error (.opaqueEntry index number) ∧
      p.rawClassName index = .error (.opaqueEntry index number)
  /-- For any other entry they go by its tag. -/
  known : ∀ index e, p.get index = .ok e → (∀ number bits, e ≠ .unknown number bits) →
    ∃ tag, e.tag? = some tag ∧ p.TypedAs index e tag
  /-- There is one step from a class to its name, and there is no other way to a name. -/
  rawClassName_ok_iff : ∀ index name, p.rawClassName index = .ok name ↔
    ∃ nameIndex, p.get index = .ok (.classRef nameIndex) ∧ p.get nameIndex = .ok (.utf8 name)

namespace Indexes

/-- The lookup of a text never finds that a slot holds no class entry. -/
theorem utf8_ne_wrongTag (h : p.Indexes policy es) (index : UInt16) :
    p.utf8 index ≠ .error (.wrongTag .classRef tag) := by
  rw [h.utf8_eq]
  rcases h.get_cases_of_meets index with ⟨-, -, e, hget⟩ | ⟨-, -, hget⟩ | ⟨-, -, hget⟩ <;> rw [hget]
  · exact Entry.asUtf8_ne_wrongTag
  all_goals
    intro h
    cases h

theorem utf8_eq_ok_iff (h : p.Indexes policy es) {text : ByteArray} :
    p.utf8 index = .ok text ↔ p.get index = .ok (.utf8 text) := by
  simp only [h.utf8_eq, bind_eq_ok_iff, Entry.asUtf8_eq_ok_iff, exists_eq_right]

theorem rawClassName_of_classRef (h : p.Indexes policy es) {nameIndex : UInt16}
    (hget : p.get index = .ok (.classRef nameIndex)) :
    p.rawClassName index = p.utf8 nameIndex := by
  rw [h.rawClassName_eq, hget]
  rfl

theorem rawClassName_of_ne (h : p.Indexes policy es) (hget : p.get index = .ok e)
    (htag : e.tag? = some tag) (hne : ∀ nameIndex, e ≠ .classRef nameIndex) :
    p.rawClassName index = .error (.wrongTag .classRef tag) := by
  have hasked : Entry.asClassRef index e = .error (.wrongTag .classRef tag) :=
    Entry.asClassRef_of_ne htag hne
  rw [h.rawClassName_eq, hget]
  dsimp only [bind, Except.bind]
  rw [hasked]

theorem typedAs (h : p.Indexes policy es) (hget : p.get index = .ok e)
    (htag : e.tag? = some tag) : p.TypedAs index e tag where
  tag_eq := by
    rw [h.tag_eq, hget]
    exact Entry.asTag_of_tag? htag
  utf8_ok_iff text := by rw [h.utf8_eq_ok_iff, hget, Except.ok.injEq]
  utf8_of_ne hne := by
    rw [h.utf8_eq, hget]
    exact Entry.asUtf8_of_ne htag hne
  rawClassName_of_eq nameIndex heq := h.rawClassName_of_classRef (heq ▸ hget)
  rawClassName_eq_utf8_iff := by
    constructor
    · rintro ⟨nameIndex, hsame⟩
      refine Classical.byContradiction fun hno => ?_
      rw [h.rawClassName_of_ne hget htag (not_exists.mp hno)] at hsame
      exact h.utf8_ne_wrongTag nameIndex hsame.symm
    · rintro ⟨nameIndex, rfl⟩
      exact ⟨nameIndex, h.rawClassName_of_classRef hget⟩
  rawClassName_of_ne := h.rawClassName_of_ne hget htag

/-- **One step.** A slot has a name exactly when it holds a class entry that refers to a text. -/
theorem rawClassName_eq_ok_iff (h : p.Indexes policy es) {name : ByteArray} :
    p.rawClassName index = .ok name ↔
      ∃ nameIndex, p.get index = .ok (.classRef nameIndex) ∧
        p.get nameIndex = .ok (.utf8 name) := by
  constructor
  · intro hname
    rw [h.rawClassName_eq, bind_eq_ok_iff] at hname
    obtain ⟨nameIndex, hclass, htext⟩ := hname
    obtain ⟨e, hget, hasked⟩ := bind_eq_ok_iff.mp hclass
    cases e with
    | classRef n =>
      cases hasked
      exact ⟨nameIndex, hget, h.utf8_eq_ok_iff.mp htext⟩
    | _ => cases hasked
  · rintro ⟨nameIndex, hclass, htext⟩
    rw [h.rawClassName_of_classRef hclass]
    exact h.utf8_eq_ok_iff.mpr htext

theorem agreesOnTypes (h : p.Indexes policy es) : p.AgreesOnTypes where
  missing index error hget := by
    rw [h.tag_eq, h.utf8_eq, h.rawClassName_eq, hget]
    exact ⟨rfl, rfl, rfl⟩
  unknown index number bits hget := by
    rw [h.tag_eq, h.utf8_eq, h.rawClassName_eq, hget]
    exact ⟨rfl, rfl, rfl⟩
  known index e hget hne := by
    obtain ⟨tag, htag⟩ := Entry.exists_tag? hne
    exact ⟨tag, htag, h.typedAs hget htag⟩
  rawClassName_ok_iff _ _ := h.rawClassName_eq_ok_iff

end Indexes

end Pool

/-- **Typed and untyped lookups agree** on every slot of every accepted class. -/
theorem load_agrees_on_types (h : (load policy b).value = .ok c) : c.pool.AgreesOnTypes := by
  obtain ⟨es, hindexes⟩ := exists_indexes_of_load h
  exact hindexes.agreesOnTypes

/-- A class whose class entries refer to themselves, to a text behind them, to the second slot of
a wide entry, past the last slot, to an entry under an unknown tag and to another class entry. -/
def tangledClass : Layout where
  minor := 0
  major := 65
  count := 11
  entries := [.classRef 1, .classRef 6, .wide .long 0 1, .classRef 4, .utf8 ⟨#[65]⟩, .classRef 99,
    .unknown 99 0, .classRef 8, .classRef 2]
  access := ⟨33⟩
  thisClass := 2
  superClass := 0
  interfaces := []
  rest := ByteArray.empty

theorem tangledClass_wellFormed : tangledClass.WellFormed .assumeFourBytes where
  fills := fills_of_slotsAll
    (fun _ he => ⟨by revert he; decide +revert, fun _ => rfl⟩) (by decide)
  length_lt := by decide

theorem load_agrees_on_types_tangled :
    (load .assumeFourBytes tangledClass.bytes).value = .ok tangledClass.toClassFile ∧
      tangledClass.toClassFile.pool.AgreesOnTypes ∧
      tangledClass.toClassFile.pool.rawClassName 1 = .error (.wrongTag .utf8 .classRef) ∧
      tangledClass.toClassFile.pool.rawClassName 2 = .ok ⟨#[65]⟩ ∧
      tangledClass.toClassFile.pool.rawClassName 5 = .error (.noEntry 4) ∧
      tangledClass.toClassFile.pool.rawClassName 7 = .error (.noSuchIndex 99 11) ∧
      tangledClass.toClassFile.pool.rawClassName 9 = .error (.opaqueEntry 8 99) ∧
      tangledClass.toClassFile.pool.rawClassName 10 = .error (.wrongTag .utf8 .classRef) := by
  have hload := Layout.load_bytes tangledClass_wellFormed
  exact ⟨hload, load_agrees_on_types hload, rfl, rfl, rfl, rfl, rfl, rfl⟩

end ClassRelay.ClassFile
