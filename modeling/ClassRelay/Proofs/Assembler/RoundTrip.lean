import ClassRelay.Proofs.Assembler.Follow
import ClassRelay.Proofs.ClassFile.Layout

/-!
# Assembled classes are read as they were described

An assembler writes a layout of the class file format (`Lays.assemble_eq`), so reading accepts
it, and what is read is what the directives said: `load_assemble` is the **round trip** from any
list of directives to the class.
-/

namespace ClassRelay

open BigEndian ClassFile

/-- Slot `index` has the entry `e`, and the slot behind it is without an entry if `e` is wide. -/
def ClassFile.Pool.Shows (p : Pool) (index : UInt16) (e : Entry) : Prop :=
  p.get index = .ok e ∧ (e.slots = 2 → p.get (index + 1) = .error (.noEntry (index + 1)))

namespace Assembler

variable {policy : UnknownTagPolicy} {a : Assembler} {es : List Entry}

/-! ### What is written -/

/-- The layout of a class file that an assembler writes for the entries of its pool. -/
def layout (a : Assembler) (es : List Entry) : Layout where
  minor := a.minor
  major := a.major
  count := a.nextIndex
  entries := es
  access := a.access
  thisClass := a.thisClass
  superClass := a.superClass
  interfaces := a.interfaces.toList
  rest := encode16 0 ++ encode16 0 ++ encode16 0

/-- Words that are written one by one are the table of them. -/
theorem foldl_encode16 (words : List UInt16) (start : ByteArray) :
    words.foldl (fun bytes index => bytes ++ encode16 index) start =
      start ++ encodeWords words := by
  induction words generalizing start with
  | nil => exact ByteArray.append_empty.symm
  | cons v words ih =>
    rw [List.foldl_cons, ih, ByteArray.append_assoc]
    rfl

theorem Lays.assemble_eq (h : a.Lays policy es) (hmagic : a.magic = ClassFile.magic) :
    a.assemble = (a.layout es).bytes := by
  have htable : a.interfaces.foldl (fun bytes index => bytes ++ encode16 index) ByteArray.empty =
      encodeWords a.interfaces.toList := by
    rw [← Array.foldl_toList, foldl_encode16, ByteArray.empty_append]
  rw [assemble, htable, hmagic, h.entries_eq, ← Array.length_toList, Layout.bytes, Layout.core,
    Layout.info]
  simp only [ByteArray.append_assoc]
  rfl

/-- What is written is well formed, unless there are too many interfaces. -/
theorem Lays.wellFormed (h : a.Lays policy es) (hlength : a.interfaces.size < 65536) :
    (a.layout es).WellFormed policy where
  fills := fills_of_slotsAll h.allowed h.nextIndex_eq.symm
  length_lt := hlength

/-- An entry that was laid is shown by the pool that is read. -/
theorem Lays.shows (h : a.Lays policy es) (hlength : a.interfaces.size < 65536) {index : UInt16}
    {e : Entry} (he : StartsIn es index e) :
    (a.layout es).toClassFile.pool.Shows index e := by
  have hindexes := (h.wellFormed hlength).indexes
  have hcount : (a.layout es).toClassFile.pool.count = 1 + Entry.slotsAll es :=
    Pool.count_ofEntries.trans h.nextIndex_eq
  refine ⟨hindexes.get_eq_ok_iff.mpr he, fun hwide => hindexes.get_shadow he hwide ?_⟩
  have hle := he.add_slots_le
  omega

/-! ### Round trip -/

/-- A class says what directives said that were followed from the start. -/
structure Assembled (ds : List Directive) (c : ClassFile) : Prop where
  /-- Every directive was answered with the slot of what it asked for. -/
  answered : ∀ (k : Nat) (d : Directive), ds[k]? = some d → ∃ answer,
    ((followAll ds).run initial).1[k]? = some answer ∧ d.Answered c.pool.Shows answer
  /-- The pool has as many slots as the assembler told. -/
  count_eq : c.pool.count = ((followAll ds).run initial).2.poolCount.toNat
  version_eq : (c.major, c.minor) =
    lastSet Directive.version? (initial.major, initial.minor) ds
  access_eq : c.access = lastSet Directive.access? initial.access ds
  thisClass_eq : c.thisClass = lastSet Directive.thisClass? initial.thisClass ds
  superClass_eq : c.superClass = lastSet Directive.superClass? initial.superClass ds
  /-- The interfaces are those that were named, in order. -/
  interfaceCount_eq : c.interfaceCount = (ds.filterMap Directive.interface?).length
  interfaceIndex_eq : ∀ k (hk : k < (ds.filterMap Directive.interface?).length),
    c.interfaceIndex k = .ok (ds.filterMap Directive.interface?)[k]

/-- The class that is read from what was laid says what the directives said. -/
theorem Lays.assembled {ds : List Directive} (h : ((followAll ds).run initial).2.Lays policy es)
    (hlength : (ds.filterMap Directive.interface?).length < 65536)
    (hanswers : ∀ (k : Nat) (d : Directive), ds[k]? = some d → ∃ answer,
      ((followAll ds).run initial).1[k]? = some answer ∧ d.Answered (StartsIn es) answer) :
    Assembled ds (((followAll ds).run initial).2.layout es).toClassFile := by
  have hinterfaces : (((followAll ds).run initial).2.layout es).interfaces =
      ds.filterMap Directive.interface? := interfaces_followAll ds initial
  have hsize : ((followAll ds).run initial).2.interfaces.size < 65536 := by
    rw [← hinterfaces] at hlength
    exact hlength
  refine
    { answered := fun k d hd => ?_
      count_eq := Pool.count_ofEntries
      version_eq := field_followAll (fun a => (a.major, a.minor)) Directive.version?
        (fun d a => by cases d <;> rfl) ds initial
      access_eq := field_followAll Assembler.access Directive.access?
        (fun d a => by cases d <;> rfl) ds initial
      thisClass_eq := field_followAll Assembler.thisClass Directive.thisClass?
        (fun d a => by cases d <;> rfl) ds initial
      superClass_eq := field_followAll Assembler.superClass Directive.superClass?
        (fun d a => by cases d <;> rfl) ds initial
      interfaceCount_eq := congrArg List.length hinterfaces
      interfaceIndex_eq := fun k hk => ?_ }
  · obtain ⟨answer, hanswer, hright⟩ := hanswers k d hd
    exact ⟨answer, hanswer, hright.mono fun index e he => h.shows hsize he⟩
  · rw [← hinterfaces] at hk
    rw [Layout.interfaceIndex_toClassFile hk]
    simp only [hinterfaces]

end Assembler

end ClassRelay
