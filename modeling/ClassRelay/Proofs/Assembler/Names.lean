import ClassRelay.ClassFile.Names
import ClassRelay.Proofs.Assembler.RoundTrip
import ClassRelay.Proofs.Text.Name
import Mathlib.Data.List.Forall2

/-!
# Assembled names are read as they were given

A directive that asks for a named class is answered with a slot, and directives that set the
class, its superclass or an interface are given such answers (`Assembler.Named`). Reading goes the
other way: from the slot to a class entry, from that to a text, from the text to a name. Texts are
written in standard UTF-8, so a decoder that keeps it reads them as they stand
(`Pool.Indexes.className_eq`). So the class that is read has **the names that were given**,
whatever else was laid before, between and behind them (`Assembler.load_resolves_names`).

Slot one is never the answer, since the text of the name is laid first; so a superclass with a
name is a meaningful one.
-/

namespace ClassRelay

open ClassFile

/-! ### Names of a class -/

/-- Results without log entries are, in sequence, one without log entries. -/
theorem Logged.sequence_map_pure {ε α : Type} (xs : List α) :
    Logged.sequence (xs.map (pure : α → Logged ε α)) = pure xs := by
  induction xs with
  | nil => rfl
  | cons x xs ih =>
    obtain ⟨hvalues, hlogs⟩ := Logged.mk.inj ih
    exact congrArg₂ Logged.mk (congrArg (x :: ·) hvalues) hlogs

namespace ClassFile

variable {policy : UnknownTagPolicy} {p : Pool} {es : List Entry} {c : ClassFile}
variable {index nameIndex : UInt16} {name : String} {decode : NameDecoder}

/-- A class entry that refers to a text has the text as its name. -/
theorem Pool.Indexes.className_eq (hkeeps : decode.KeepsUtf8) (h : p.Indexes policy es)
    (hclass : StartsIn es index (.classRef nameIndex))
    (hname : StartsIn es nameIndex (.text name)) :
    p.className decode index = .ok name.toUTF8 := by
  have hutf8 : p.utf8 nameIndex = .ok name.toUTF8 := by
    rw [h.utf8_eq, h.get_eq_ok_iff.mpr hname]
    rfl
  have hraw : p.rawClassName index = .ok name.toUTF8 := by
    rw [h.rawClassName_eq, h.get_eq_ok_iff.mpr hclass]
    exact hutf8
  exact className_of_decode_ok hraw (hkeeps _ name.isValidUTF8)

variable {b : ByteArray}

theorem name?_of_className (h : c.pool.className decode c.thisClass = .ok b) :
    c.name? decode = pure (some b) := by
  rw [name?, resolveName, h]
  rfl

theorem superName?_of_className (hne : c.superClass ≠ 0)
    (h : c.pool.className decode c.superClass = .ok b) : c.superName? decode = pure (some b) := by
  rw [superName?, resolveSuper, if_neg hne, h]
  rfl

theorem interfaceName_of_className {k : Nat} (hindex : c.interfaceIndex k = .ok index)
    (h : c.pool.className decode index = .ok b) : c.interfaceName decode k = pure (.ok b) := by
  rw [interfaceName, hindex]
  dsimp only [bind, Except.bind]
  rw [h]
  rfl

/-- Where all names can be read, the superclass is to be loaded first and then the interfaces. -/
theorem dependencies_of_names {names : List ByteArray} (hhas : c.hasSuper = true)
    (hsuper : c.superName? decode = pure (some b))
    (hinterfaces : (List.range c.interfaceCount).map (c.interfaceName decode) =
      (names.map Except.ok).map pure) : c.dependencies decode = pure (b :: names) := by
  have hall : (names.map Except.ok).filterMap
      (Except.toOption : Except ClassError ByteArray → Option ByteArray) = names := by
    rw [List.filterMap_map]
    exact List.filterMap_some
  rw [dependencies, hhas, if_pos rfl, hsuper, hinterfaces, Logged.sequence_map_pure]
  exact congrArg (fun rest => pure (b :: rest)) hall

/-- The class, its superclass and its interfaces are read with these names, and none is missing. -/
structure HasNames (decode : NameDecoder) (c : ClassFile) (ownName superName : String)
    (interfaceNames : List String) : Prop where
  name?_eq : c.name? decode = pure (some ownName.toUTF8)
  superName?_eq : c.superName? decode = pure (some superName.toUTF8)
  hasSuper_eq : c.hasSuper = true
  /-- The superclass is to be loaded first, and then the interfaces in order. -/
  dependencies_eq : c.dependencies decode = pure ((superName :: interfaceNames).map String.toUTF8)

/-- A class has the names that the slots of its fields have. -/
theorem hasNames_of_className {ownName superName : String} {interfaceNames : List String}
    (hthis : c.pool.className decode c.thisClass = .ok ownName.toUTF8)
    (hsuper : c.pool.className decode c.superClass = .ok superName.toUTF8)
    (hlt : 1 < c.superClass.toNat) (hcount : c.interfaceCount = interfaceNames.length)
    (hinterfaces : ∀ k (hk : k < interfaceNames.length), ∃ index,
      c.interfaceIndex k = .ok index ∧
        c.pool.className decode index = .ok interfaceNames[k].toUTF8) :
    c.HasNames decode ownName superName interfaceNames := by
  have hne : c.superClass ≠ 0 := by
    intro h
    rw [h] at hlt
    cases hlt
  have hhas : c.hasSuper = true := decide_eq_true hlt
  have hname := superName?_of_className hne hsuper
  have hnames : (List.range c.interfaceCount).map (c.interfaceName decode) =
      ((interfaceNames.map String.toUTF8).map Except.ok).map pure := by
    refine List.ext_getElem (by simp [hcount]) fun k hk hk' => ?_
    simp only [List.length_map] at hk'
    obtain ⟨index, hindex, hclass⟩ := hinterfaces k hk'
    simp only [List.getElem_map, List.getElem_range]
    exact interfaceName_of_className hindex hclass
  exact ⟨name?_of_className hthis, hname, hhas, dependencies_of_names hhas hname hnames⟩

end ClassFile

namespace Assembler

variable {policy : UnknownTagPolicy} {a : Assembler} {ds : List Directive} {es : List Entry}
variable {index : UInt16} {name : String} {decode : NameDecoder}

/-- Slot `index` was the answer to a directive that asked for a class of this name. -/
def Named (ds : List Directive) (index : UInt16) (name : String) : Prop :=
  ∃ k : Nat, ds[k]? = some (.namedClass name) ∧
    ((followAll ds).run initial).1[k]? = some (some index)

/-- A named class is never answered with slot one, as its name stands in front of it. -/
theorem Lays.one_lt_of_namedClass (h : a.Lays policy es) (hds : ∀ d ∈ ds, d.Valid)
    (hroom : 1 + Entry.slotsAll es + Directive.slotsAll ds < 65536) {k : Nat}
    (hk : ds[k]? = some (.namedClass name))
    (hanswer : ((followAll ds).run a).1[k]? = some (some index)) : 1 < index.toNat := by
  induction ds generalizing a es k with
  | nil => simp at hk
  | cons d ds ih =>
    rw [run_followAll_cons] at hanswer
    rw [Directive.slotsAll] at hroom
    cases k with
    | zero =>
      cases hk
      have hindex : a.nextIndex + 1 = index := Option.some.inj (Option.some.inj hanswer)
      have hslots : Directive.slots (.namedClass name) = 2 := rfl
      rw [← hindex, UInt16.toNat_add, h.nextIndex_eq, UInt16.toNat_one]
      omega
    | succ k =>
      obtain ⟨new, hnew, hslots, -⟩ := h.run_follow (hds d List.mem_cons_self) (by omega)
      exact ih hnew (fun d' hd' => hds d' (List.mem_cons_of_mem _ hd'))
        (by rw [Entry.slotsAll_append]; omega) hk hanswer

/-- A named slot starts a class entry that refers to the text of the name. -/
theorem Named.exists_startsIn (h : Named ds index name)
    (hanswers : ∀ (k : Nat) (d : Directive), ds[k]? = some d → ∃ answer,
      ((followAll ds).run initial).1[k]? = some answer ∧ d.Answered (StartsIn es) answer) :
    ∃ nameIndex, StartsIn es nameIndex (.text name) ∧ StartsIn es index (.classRef nameIndex) := by
  obtain ⟨k, hk, hindex⟩ := h
  obtain ⟨answer, hanswer, index', nameIndex, rfl, hname, hclass⟩ := hanswers k _ hk
  cases hindex.symm.trans hanswer
  exact ⟨nameIndex, hname, hclass⟩

/-- The class that is read from what was laid has the names that were given. -/
theorem Lays.hasNames {ownName superName : String} {interfaceNames : List String}
    (hkeeps : decode.KeepsUtf8) (h : ((followAll ds).run initial).2.Lays policy es)
    (hlength : (ds.filterMap Directive.interface?).length < 65536)
    (hanswers : ∀ (k : Nat) (d : Directive), ds[k]? = some d → ∃ answer,
      ((followAll ds).run initial).1[k]? = some answer ∧ d.Answered (StartsIn es) answer)
    (hthis : Named ds (lastSet Directive.thisClass? initial.thisClass ds) ownName)
    (hsuper : Named ds (lastSet Directive.superClass? initial.superClass ds) superName)
    (hlt : 1 < (lastSet Directive.superClass? initial.superClass ds).toNat)
    (hnames : List.Forall₂ (Named ds) (ds.filterMap Directive.interface?) interfaceNames) :
    (((followAll ds).run initial).2.layout es).toClassFile.HasNames decode ownName
      superName interfaceNames := by
  have hc := h.assembled hlength hanswers
  have hsize : ((followAll ds).run initial).2.interfaces.size < 65536 := by
    rw [← Array.length_toList, interfaces_followAll]
    exact hlength
  have hindexes := (h.wellFormed hsize).indexes
  have hname : ∀ {index : UInt16} {name : String}, Named ds index name →
      (((followAll ds).run initial).2.layout es).toClassFile.pool.className decode index =
        .ok name.toUTF8 := by
    intro index name hnamed
    obtain ⟨nameIndex, hname, hclass⟩ := hnamed.exists_startsIn hanswers
    exact hindexes.className_eq hkeeps hclass hname
  rw [← hc.thisClass_eq] at hthis
  rw [← hc.superClass_eq] at hsuper hlt
  refine hasNames_of_className (hname hthis) (hname hsuper) hlt
    (hc.interfaceCount_eq.trans hnames.length_eq) fun k hk => ?_
  have hk' : k < (ds.filterMap Directive.interface?).length := hnames.length_eq ▸ hk
  exact ⟨_, hc.interfaceIndex_eq k hk', hname (hnames.get hk' hk)⟩

/-- What was laid is accepted, if the magic number was left as it is. -/
theorem Lays.value_load_assemble (h : ((followAll ds).run initial).2.Lays policy es)
    (hlength : (ds.filterMap Directive.interface?).length < 65536)
    (hmagic : lastSet Directive.magic? ClassFile.magic ds = ClassFile.magic) :
    (load policy ((followAll ds).run initial).2.assemble).value =
      .ok (((followAll ds).run initial).2.layout es).toClassFile := by
  have hsize : ((followAll ds).run initial).2.interfaces.size < 65536 := by
    rw [← Array.length_toList, interfaces_followAll]
    exact hlength
  have hmagic' : ((followAll ds).run initial).2.magic = ClassFile.magic :=
    (field_followAll Assembler.magic Directive.magic? (fun d a => by cases d <;> rfl) ds
      initial).trans hmagic
  rw [value_load, h.assemble_eq hmagic']
  exact Layout.parse_bytes (h.wellFormed hsize)

/-- **Names are read as they were given.** If the class, its superclass and its interfaces are set
to slots that named classes were answered with, then the class that is written is accepted and
has these names. The decoder must keep standard UTF-8, the magic number must be left as it is, raw
bytes must be those of an entry, and there must be room, for texts, slots and interfaces. -/
theorem load_resolves_names (hkeeps : decode.KeepsUtf8) (policy : UnknownTagPolicy)
    (ds : List Directive) (hvalid : ∀ d ∈ ds, d.Valid) (hslots : Directive.slotsAll ds ≤ 65534)
    (hinterfaces : (ds.filterMap Directive.interface?).length ≤ 65535)
    (hmagic : lastSet Directive.magic? ClassFile.magic ds = ClassFile.magic)
    {ownName superName : String} {interfaceNames : List String}
    (hthis : Named ds (lastSet Directive.thisClass? initial.thisClass ds) ownName)
    (hsuper : Named ds (lastSet Directive.superClass? initial.superClass ds) superName)
    (hnames : List.Forall₂ (Named ds) (ds.filterMap Directive.interface?) interfaceNames) :
    ∃ c, (load policy ((followAll ds).run initial).2.assemble).value = .ok c ∧
      c.HasNames decode ownName superName interfaceNames := by
  have hnone : Entry.slotsAll [] = 0 := rfl
  have hstart : initial.Lays policy [] := lays_initial
  obtain ⟨es, hlays, hanswers⟩ := hstart.run_followAll hvalid (by omega)
  rw [List.nil_append] at hlays hanswers
  have hlt : 1 < (lastSet Directive.superClass? initial.superClass ds).toNat := by
    obtain ⟨k, hk, hanswer⟩ := hsuper
    exact hstart.one_lt_of_namedClass hvalid (by omega) hk hanswer
  have hlength := Nat.lt_succ_of_le hinterfaces
  exact ⟨_, hlays.value_load_assemble hlength hmagic,
    hlays.hasNames hkeeps hlength hanswers hthis hsuper hlt hnames⟩

/-- Directives that name a class, its superclass and three interfaces, with other entries between
them. One name holds a zero, one needs four bytes for a character, and one is used twice. -/
def namesAmongEntries : List Directive :=
  [.entry (.wide .double 0 0), .namedClass "A\x00b", .superClass 8, .entry (.text "between"),
    .raw 5 ⟨#[0, 0, 0, 0, 0, 0, 0, 9]⟩ 2, .namedClass "p/𝔸", .thisClass 4, .namedClass "I",
    .interface 11, .interface 4, .interface 11, .entry (.classRef 3), .superClass 9]

theorem load_resolves_names_amongEntries :
    ∃ c, (load .reject ((followAll namesAmongEntries).run initial).2.assemble).value = .ok c ∧
      c.HasNames .simple "A\x00b" "p/𝔸" ["I", "A\x00b", "I"] := by
  have hvalid : ∀ d ∈ namesAmongEntries, d.Valid := by
    simp only [namesAmongEntries, List.forall_mem_cons]
    exact ⟨⟨by decide, trivial⟩, show "A\x00b".toUTF8.size < 65536 by decide, trivial,
      ⟨by decide, show "between".toUTF8.size < 65536 by decide⟩, ⟨.wide .long, rfl, rfl, rfl⟩,
      show "p/𝔸".toUTF8.size < 65536 by decide, trivial, show "I".toUTF8.size < 65536 by decide,
      trivial, trivial, trivial, ⟨by decide, trivial⟩, trivial, List.forall_mem_nil _⟩
  have hanswers : ((followAll namesAmongEntries).run initial).1 =
      [some 1, some 4, none, some 5, some 6, some 9, none, some 11, none, none, none, some 12,
        none] := by
    decide +kernel
  have hfirst : Named namesAmongEntries 4 "A\x00b" := ⟨1, rfl, by rw [hanswers]; rfl⟩
  have hsecond : Named namesAmongEntries 9 "p/𝔸" := ⟨5, rfl, by rw [hanswers]; rfl⟩
  have hthird : Named namesAmongEntries 11 "I" := ⟨7, rfl, by rw [hanswers]; rfl⟩
  exact load_resolves_names NameDecoder.simple_keepsUtf8 .reject namesAmongEntries hvalid
    (by decide) (by decide) (by decide) hfirst hsecond
    (.cons hthird (.cons hfirst (.cons hthird .nil)))

end Assembler

end ClassRelay
