import ClassRelay.Assembler.Basic
import ClassRelay.Proofs.ClassFile.Pool.Index

/-!
# Following directives

What an assembler holds after it has followed a list of directives.

* **Fields** hold the last value that a directive gave them (`field_followAll`), and the
  interfaces are all kept, in order (`interfaces_followAll`).
* **Entries**: `Assembler.Lays` is the invariant that ties the written bytes and the next free
  slot to a list of entries. A directive only adds entries behind those that are there, so the
  answer to it, the slot of its entry, stays right whatever is followed afterwards
  (`Lays.run_followAll`).

A list of directives stands for any way to use an assembler: directives that were made up from
earlier answers are a list in the end.
-/

namespace ClassRelay

open BigEndian ClassFile

namespace Directive

/-! ### What a directive asks for -/

def magic? : Directive → Option UInt32
  | magic value => some value
  | _ => none

/-- The version that a directive sets, its major number first. -/
def version? : Directive → Option (UInt16 × UInt16)
  | version major minor => some (major, minor)
  | _ => none

def access? : Directive → Option AccessFlags
  | access flags => some flags
  | _ => none

def thisClass? : Directive → Option UInt16
  | thisClass index => some index
  | _ => none

def superClass? : Directive → Option UInt16
  | superClass index => some index
  | _ => none

def interface? : Directive → Option UInt16
  | interface index => some index
  | _ => none

/-- The number of slots that a directive takes. -/
def slots : Directive → Nat
  | raw _ _ slots => slots.toNat
  | entry e => e.slots
  | namedClass _ => 2
  | _ => 0

/-- The number of slots that directives take. -/
def slotsAll : List Directive → Nat
  | [] => 0
  | d :: ds => d.slots + slotsAll ds

/-- A directive whose entries the format can hold. Raw bytes must be those of an entry with a
known tag and take as many slots as it does. -/
def Valid : Directive → Prop
  | raw number payload slots => ∃ tag : Tag, Tag.ofNumber? number = some tag ∧
      tag.Fits payload ∧ slots.toNat = if tag.isWide then 2 else 1
  | entry e => e.tag? ≠ none ∧ e.Representable
  | namedClass name => name.toUTF8.size < 65536
  | _ => True

/-- The answer to a directive is right: it is the slot of the entry that was asked for, if one
was. `holds index e` says that slot `index` has the entry `e`. -/
def Answered (holds : UInt16 → Entry → Prop) : Directive → Option UInt16 → Prop
  | raw number payload _, answer => ∃ index e, answer = some index ∧ e.Representable ∧
      e.encode = ByteArray.empty.push number ++ payload ∧ holds index e
  | entry e, answer => ∃ index, answer = some index ∧ holds index e
  | namedClass name, answer => ∃ index nameIndex, answer = some index ∧
      holds nameIndex (.text name) ∧ holds index (.classRef nameIndex)
  | _, answer => answer = none

theorem Answered.mono {holds holds' : UInt16 → Entry → Prop} {d : Directive}
    {answer : Option UInt16} (h : d.Answered holds answer)
    (hsub : ∀ index e, holds index e → holds' index e) : d.Answered holds' answer := by
  cases d with
  | raw number payload slots =>
    obtain ⟨index, e, hanswer, hrep, hencode, hholds⟩ := h
    exact ⟨index, e, hanswer, hrep, hencode, hsub _ _ hholds⟩
  | entry e =>
    obtain ⟨index, hanswer, hholds⟩ := h
    exact ⟨index, hanswer, hsub _ _ hholds⟩
  | namedClass name =>
    obtain ⟨index, nameIndex, hanswer, hname, hclass⟩ := h
    exact ⟨index, nameIndex, hanswer, hsub _ _ hname, hsub _ _ hclass⟩
  | _ => exact h

end Directive

namespace Assembler

/-- Follows directives one after the other, and gives their answers. -/
def followAll (ds : List Directive) : StateM Assembler (List (Option UInt16)) :=
  ds.mapM follow

theorem run_followAll_cons (d : Directive) (ds : List Directive) (a : Assembler) :
    (followAll (d :: ds)).run a =
      (((follow d).run a).1 :: ((followAll ds).run ((follow d).run a).2).1,
        ((followAll ds).run ((follow d).run a).2).2) := by
  rw [followAll, List.mapM_cons]
  rfl

/-! ### Fields -/

/-- The last value that directives set, or the one that was there before. -/
def lastSet {α : Type} (value? : Directive → Option α) (default : α) (ds : List Directive) : α :=
  (ds.filterMap value?).getLastD default

/-- A field that directives overwrite holds the last value that one of them gave it. -/
theorem field_followAll {α : Type} (field : Assembler → α) (value? : Directive → Option α)
    (hfollow : ∀ d a, field ((follow d).run a).2 = (value? d).getD (field a))
    (ds : List Directive) (a : Assembler) :
    field ((followAll ds).run a).2 = lastSet value? (field a) ds := by
  induction ds generalizing a with
  | nil => rfl
  | cons d ds ih =>
    rw [run_followAll_cons, ih, hfollow]
    cases hvalue : value? d with
    | none => rw [lastSet, lastSet, List.filterMap_cons_none hvalue, Option.getD_none]
    | some v =>
      rw [lastSet, lastSet, List.filterMap_cons_some hvalue, List.getLastD_cons, Option.getD_some]

/-- Interfaces are kept in the order in which they were named. -/
theorem interfaces_followAll (ds : List Directive) (a : Assembler) :
    ((followAll ds).run a).2.interfaces.toList =
      a.interfaces.toList ++ ds.filterMap Directive.interface? := by
  induction ds generalizing a with
  | nil => exact (List.append_nil _).symm
  | cons d ds ih =>
    rw [run_followAll_cons, ih]
    cases d with
    | interface index =>
      rw [List.filterMap_cons_some (show Directive.interface? (.interface index) = some index
        from rfl), List.append_cons]
      exact congrArg (· ++ _) Array.toList_push
    | _ => rfl

/-! ### Entries -/

variable {policy : UnknownTagPolicy} {a : Assembler} {es : List Entry}

/-- The bytes and the next free slot of an assembler are those of the entries `es`. -/
structure Lays (policy : UnknownTagPolicy) (a : Assembler) (es : List Entry) : Prop where
  entries_eq : a.entries = Entry.encodeAll es
  nextIndex_eq : a.nextIndex.toNat = 1 + Entry.slotsAll es
  allowed : ∀ e ∈ es, e.Allowed policy

theorem lays_initial : initial.Lays policy [] where
  entries_eq := rfl
  nextIndex_eq := rfl
  allowed := fun _ h => absurd h List.not_mem_nil

/-- Bytes that are an entry add this entry, and the slot that is told is its own. -/
theorem Lays.run_addRaw {number : UInt8} {payload : ByteArray} {slots : UInt16} {e : Entry}
    (h : a.Lays policy es) (he : e.Allowed policy)
    (hencode : e.encode = ByteArray.empty.push number ++ payload)
    (hslots : slots.toNat = e.slots) (hroom : 1 + Entry.slotsAll es + e.slots < 65536) :
    ((addRaw number payload slots).run a).2.Lays policy (es ++ [e]) ∧
      StartsIn (es ++ [e]) ((addRaw number payload slots).run a).1 e := by
  -- The slot that is told is the one that was free before.
  refine ⟨⟨?_, ?_, ?_⟩, startsIn_append_singleton h.nextIndex_eq⟩
  · have hpush : a.entries.push number = a.entries ++ ByteArray.empty.push number :=
      ByteArray.ext (by simp)
    calc a.entries.push number ++ payload
        = a.entries ++ e.encode := by rw [hpush, ByteArray.append_assoc, hencode]
      _ = Entry.encodeAll (es ++ [e]) := by
          rw [Entry.encodeAll_append, h.entries_eq, Entry.encodeAll_cons, Entry.encodeAll_nil,
            ByteArray.append_empty]
  · have hone : Entry.slotsAll [e] = e.slots := Nat.add_zero _
    calc (a.nextIndex + slots).toNat
        = (1 + Entry.slotsAll es + e.slots) % 65536 := by
          rw [UInt16.toNat_add, h.nextIndex_eq, hslots]
      _ = 1 + Entry.slotsAll (es ++ [e]) := by
          rw [Nat.mod_eq_of_lt hroom, Entry.slotsAll_append, hone, Nat.add_assoc]
  · intro e' he'
    rcases List.mem_append.mp he' with he' | he'
    · exact h.allowed e' he'
    · rw [List.mem_singleton.mp he']
      exact he

theorem Lays.run_addEntry {e : Entry} (h : a.Lays policy es) (he : e.Allowed policy)
    (hroom : 1 + Entry.slotsAll es + e.slots < 65536) :
    ((addEntry e).run a).2.Lays policy (es ++ [e]) ∧
      StartsIn (es ++ [e]) ((addEntry e).run a).1 e := by
  refine h.run_addRaw he rfl ?_ hroom
  rw [UInt16.toNat_ofNat']
  omega

/-- A named class adds two entries, the second of which refers to the first. -/
theorem Lays.run_addClass {name : String} (h : a.Lays policy es)
    (hname : (Entry.text name).Representable) (hroom : 1 + Entry.slotsAll es + 2 < 65536) :
    ∃ nameIndex, ((addClass name).run a).2.Lays policy
        (es ++ [.text name, .classRef nameIndex]) ∧
      StartsIn (es ++ [.text name, .classRef nameIndex]) nameIndex (.text name) ∧
      StartsIn (es ++ [.text name, .classRef nameIndex]) ((addClass name).run a).1
        (.classRef nameIndex) := by
  obtain ⟨htext, hname⟩ := h.run_addEntry (.of_tag?_ne_none hname (Option.some_ne_none _))
    (Nat.lt_of_succ_lt hroom)
  have hslots : Entry.slotsAll (es ++ [.text name]) = Entry.slotsAll es + 1 :=
    Entry.slotsAll_append
  obtain ⟨hclass, hindex⟩ := htext.run_addEntry
    (e := .classRef ((addEntry (.text name)).run a).1)
    (.of_tag?_ne_none trivial (Option.some_ne_none _))
    (show _ + 1 < 65536 by omega)
  rw [List.append_assoc] at hclass hindex
  refine ⟨_, hclass, ?_, hindex⟩
  rw [← List.singleton_append, ← List.append_assoc]
  exact hname.append_right

/-- **One directive.** It adds entries that take as many slots as it says, behind those that
are there, and is answered rightly. -/
theorem Lays.run_follow {d : Directive} (h : a.Lays policy es) (hd : d.Valid)
    (hroom : 1 + Entry.slotsAll es + d.slots < 65536) :
    ∃ new, ((follow d).run a).2.Lays policy (es ++ new) ∧ Entry.slotsAll new = d.slots ∧
      d.Answered (StartsIn (es ++ new)) ((follow d).run a).1 := by
  cases d with
  | raw number payload slots =>
    obtain ⟨tag, htag, hfits, hslots⟩ := hd
    obtain ⟨e, hetag, hrep, rfl⟩ := Tag.fits_iff.mp hfits
    have hnumber : number = e.number :=
      (Tag.ofNumber?_eq_some_iff.mp htag).trans (Entry.number_of_tag?_eq_some hetag).symm
    have hencode : e.encode = ByteArray.empty.push number ++ e.payload := by
      rw [hnumber, Entry.encode]
    rw [← Entry.slots_of_tag?_eq_some hetag] at hslots
    have hknown : e.tag? ≠ none := by
      rw [hetag]
      exact Option.some_ne_none tag
    obtain ⟨hlays, hstart⟩ :=
      h.run_addRaw (.of_tag?_ne_none hrep hknown) hencode hslots (hslots ▸ hroom)
    exact ⟨[e], hlays, hslots.symm, _, e, rfl, hrep, hencode, hstart⟩
  | entry e =>
    obtain ⟨htag, hrep⟩ := hd
    obtain ⟨hlays, hstart⟩ := h.run_addEntry (.of_tag?_ne_none hrep htag) hroom
    exact ⟨[e], hlays, Nat.add_zero _, _, rfl, hstart⟩
  | namedClass name =>
    obtain ⟨nameIndex, hlays, hname, hclass⟩ := h.run_addClass hd hroom
    exact ⟨_, hlays, rfl, _, nameIndex, rfl, hname, hclass⟩
  | _ =>
    refine ⟨[], ?_, rfl, rfl⟩
    rw [List.append_nil]
    exact ⟨h.entries_eq, h.nextIndex_eq, h.allowed⟩

/-- **Directives in sequence.** Each of them is answered rightly, and stays so to the end. -/
theorem Lays.run_followAll {ds : List Directive} (h : a.Lays policy es) (hds : ∀ d ∈ ds, d.Valid)
    (hroom : 1 + Entry.slotsAll es + Directive.slotsAll ds < 65536) :
    ∃ new, ((followAll ds).run a).2.Lays policy (es ++ new) ∧
      ∀ (k : Nat) (d : Directive), ds[k]? = some d → ∃ answer,
        ((followAll ds).run a).1[k]? = some answer ∧ d.Answered (StartsIn (es ++ new)) answer := by
  induction ds generalizing a es with
  | nil =>
    refine ⟨[], ?_, fun k d hd => by simp at hd⟩
    rw [List.append_nil]
    exact h
  | cons d ds ih =>
    rw [Directive.slotsAll] at hroom
    obtain ⟨first, hfirst, hslots, hanswer⟩ := h.run_follow (hds d List.mem_cons_self) (by omega)
    obtain ⟨others, hothers, hanswers⟩ := ih hfirst
      (fun d' hd' => hds d' (List.mem_cons_of_mem _ hd'))
      (by rw [Entry.slotsAll_append]; omega)
    rw [List.append_assoc] at hothers hanswers
    rw [run_followAll_cons]
    refine ⟨first ++ others, hothers, fun k d' hd' => ?_⟩
    cases k with
    | zero =>
      -- What comes later is laid behind the entries of the first directive.
      cases hd'
      refine ⟨_, rfl, hanswer.mono fun index e hstart => ?_⟩
      rw [← List.append_assoc]
      exact hstart.append_right
    | succ k => exact hanswers k d' hd'

end Assembler

end ClassRelay
