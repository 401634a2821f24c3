import ClassRelay.ClassFile.Names
import ClassRelay.Proofs.ClassFile.Layout
import ClassRelay.Proofs.Text.Name

/-!
# Every class to load first is named or reported

A class names those that are to be loaded before it by slots of its pool: the slot of its
superclass, if that is a meaningful one, and the slots of its interfaces. They are its
**candidates** (`candidates`). Asking for them gives the names of the candidates that have one, in
order and as often as they occur, and emits one warning for each of the others, in the same order
(`dependencies_accounted`). So no candidate is dropped, and what is emitted tells which ones are
missing: the superclass by its slot, an interface by its position.
-/

namespace ClassRelay.ClassFile

/-! ### Candidates -/

/-- A class that is to be loaded before another one. -/
inductive Candidate
  /-- The superclass, by its slot. -/
  | superClass (index : UInt16)
  /-- The interface at a position, and its slot. -/
  | interface (position : Nat) (index : UInt16)
  deriving DecidableEq

namespace Candidate

/-- The slot of a candidate. -/
def index : Candidate → UInt16
  | superClass index => index
  | interface _ index => index

/-- The warning that a candidate has no name. -/
def unnamed : Candidate → ClassError → Warning
  | superClass index => .unnamedSuper index
  | interface position _ => .unnamedInterface position

/-- The name of a candidate, if the decoder reads one. -/
def name? (decode : NameDecoder) (p : Pool) (q : Candidate) : Option ByteArray :=
  (p.className decode q.index).toOption

/-- The warning about a candidate, if it has no name. -/
def warning? (decode : NameDecoder) (p : Pool) (q : Candidate) : Option Warning :=
  match p.className decode q.index with
  | .ok _ => none
  | .error cause => some (q.unnamed cause)

end Candidate

/-- The superclass, unless its slot is zero or one, and then the interfaces in the order of their
slots. -/
def candidates (superClass : UInt16) (interfaces : List UInt16) : List Candidate :=
  (if 1 < superClass.toNat then [.superClass superClass] else []) ++
    interfaces.mapIdx .interface

namespace Candidate

variable {decode : NameDecoder} {p : Pool} {q : Candidate}

theorem name?_of_ok {name : ByteArray} (h : p.className decode q.index = .ok name) :
    q.name? decode p = some name := by
  rw [name?, h]
  rfl

theorem name?_of_error {cause : ClassError} (h : p.className decode q.index = .error cause) :
    q.name? decode p = none := by
  rw [name?, h]
  rfl

theorem warning?_of_ok {name : ByteArray} (h : p.className decode q.index = .ok name) :
    q.warning? decode p = none := by
  rw [warning?, h]

theorem warning?_of_error {cause : ClassError} (h : p.className decode q.index = .error cause) :
    q.warning? decode p = some (q.unnamed cause) := by
  rw [warning?, h]

/-- A candidate that is looked up, with a warning if it has no name. -/
def lookup (decode : NameDecoder) (p : Pool) (q : Candidate) :
    Logged Warning (Except ClassError ByteArray) :=
  Logged.onError q.unnamed (p.className decode q.index)

theorem log_lookup (decode : NameDecoder) (p : Pool) (q : Candidate) :
    (q.lookup decode p).log = (q.warning? decode p).toList := by
  cases h : p.className decode q.index with
  | ok name => rw [warning?_of_ok h, lookup, h]; rfl
  | error cause => rw [warning?_of_error h, lookup, h]; rfl

/-- Looking candidates up gives the names of those that have one. -/
theorem filterMap_lookup (decode : NameDecoder) (p : Pool) (qs : List Candidate) :
    (Logged.sequence (qs.map (lookup decode p))).value.filterMap Except.toOption =
      qs.filterMap (name? decode p) := by
  have hlookup : (Except.toOption ∘ Logged.value ∘ lookup decode p) = name? decode p :=
    funext fun q => by simp only [Function.comp, lookup, Logged.value_onError, name?]
  rw [Logged.value_sequence, List.map_map, List.filterMap_map, hlookup]

/-- It emits the warnings about the others. -/
theorem log_sequence_lookup (decode : NameDecoder) (p : Pool) (qs : List Candidate) :
    (Logged.sequence (qs.map (lookup decode p))).log = qs.filterMap (warning? decode p) := by
  induction qs with
  | nil => rfl
  | cons q qs ih =>
    rw [Logged.log_sequence] at ih ⊢
    rw [List.map_cons, List.flatMap_cons, ih, log_lookup,
      filterMap_cons_eq_append]

/-- **None is dropped.** Each candidate gives a name or a warning, and not both. -/
theorem length_names_add_length_warnings (decode : NameDecoder) (p : Pool)
    (qs : List Candidate) :
    (qs.filterMap (name? decode p)).length + (qs.filterMap (warning? decode p)).length =
      qs.length := by
  induction qs with
  | nil => rfl
  | cons q qs ih =>
    cases h : p.className decode q.index with
    | ok name =>
      rw [List.filterMap_cons_some (name?_of_ok h), List.filterMap_cons_none (warning?_of_ok h),
        List.length_cons, List.length_cons]
      omega
    | error cause =>
      rw [List.filterMap_cons_none (name?_of_error h),
        List.filterMap_cons_some (warning?_of_error h), List.length_cons, List.length_cons]
      omega

end Candidate

theorem length_candidates (superClass : UInt16) (interfaces : List UInt16) :
    (candidates superClass interfaces).length =
      if 1 < superClass.toNat then interfaces.length + 1 else interfaces.length := by
  rw [candidates, List.length_append, List.length_mapIdx]
  split
  · exact Nat.add_comm _ _
  · exact Nat.zero_add _

/-! ### Asking for them -/

variable {decode : NameDecoder} {c : ClassFile}

theorem interfaceIndex_toList {k : Nat} (hk : k < c.interfaces.toList.length) :
    c.interfaceIndex k = .ok c.interfaces.toList[k] := by
  rw [interfaceIndex, Array.getElem?_eq_getElem hk, Array.getElem_toList]

/-- The interfaces are looked up one after the other. -/
theorem map_interfaceName (decode : NameDecoder) (c : ClassFile) :
    (List.range c.interfaceCount).map (c.interfaceName decode) =
      (c.interfaces.toList.mapIdx .interface).map (Candidate.lookup decode c.pool) := by
  have hlength : c.interfaceCount = c.interfaces.toList.length := rfl
  refine List.ext_getElem (by simp [hlength]) fun k hk hk' => ?_
  simp only [List.length_map, List.length_range, hlength] at hk
  simp only [List.getElem_map, List.getElem_range, List.getElem_mapIdx]
  rw [interfaceName, interfaceIndex_toList hk]
  rfl

/-- A meaningful superclass is looked up like any other candidate. -/
theorem superName?_eq (h : 1 < c.superClass.toNat) :
    c.superName? decode = ⟨(Candidate.superClass c.superClass).name? decode c.pool,
      ((Candidate.superClass c.superClass).warning? decode c.pool).toList⟩ := by
  have hne : c.superClass ≠ 0 := by
    intro hzero
    rw [hzero] at h
    cases h
  rw [superName?, resolveSuper, if_neg hne, Candidate.name?, Candidate.warning?, Candidate.index]
  cases c.pool.className decode c.superClass <;> rfl

/-- The names and the warnings are those of the superclass, if it is meaningful, and of the
interfaces. -/
theorem dependencies_eq (decode : NameDecoder) (c : ClassFile) : c.dependencies decode =
    ⟨(candidates c.superClass c.interfaces.toList).filterMap (Candidate.name? decode c.pool),
      (candidates c.superClass c.interfaces.toList).filterMap
        (Candidate.warning? decode c.pool)⟩ := by
  have hvalue := Candidate.filterMap_lookup decode c.pool (c.interfaces.toList.mapIdx .interface)
  have hlog := Candidate.log_sequence_lookup decode c.pool (c.interfaces.toList.mapIdx .interface)
  rw [← map_interfaceName] at hvalue hlog
  by_cases hsuper : 1 < c.superClass.toNat
  · have hhas : c.hasSuper = true := decide_eq_true hsuper
    rw [candidates, if_pos hsuper, List.filterMap_append, List.filterMap_append, ← hvalue, ← hlog,
      dependencies, hhas, if_pos rfl, superName?_eq hsuper, Logged.mk.injEq]
    simp only [Logged.value_bind, Logged.log_bind, Logged.value_pure, Logged.log_pure,
      List.append_nil, filterMap_cons_eq_append, List.filterMap_nil, and_self]
  · have hhas : c.hasSuper = false := decide_eq_false hsuper
    rw [candidates, if_neg hsuper, List.nil_append, ← hvalue, ← hlog, dependencies, hhas,
      if_neg Bool.false_ne_true, Logged.mk.injEq]
    simp only [Logged.value_bind, Logged.log_bind, Logged.value_pure, Logged.log_pure,
      List.append_nil, List.nil_append, Option.toList_none, and_self]

/-- How the names that a class asks for, and the warnings about it, account for its candidates.
Its interfaces have the slots `interfaces`. -/
structure AccountsFor (decode : NameDecoder) (c : ClassFile) (interfaces : List UInt16) : Prop where
  length_eq : interfaces.length = c.interfaceCount
  interfaceIndex_eq : ∀ k (hk : k < interfaces.length), c.interfaceIndex k = .ok interfaces[k]
  /-- The names are those of the candidates that have one, in order. -/
  value_eq : (c.dependencies decode).value =
    (candidates c.superClass interfaces).filterMap (Candidate.name? decode c.pool)
  /-- There is one warning for each of the others, in order, and no other one. -/
  log_eq : (c.dependencies decode).log =
    (candidates c.superClass interfaces).filterMap (Candidate.warning? decode c.pool)
  /-- Names and warnings are together as many as the candidates. -/
  length_add_length : (c.dependencies decode).value.length + (c.dependencies decode).log.length =
    if c.hasSuper then c.interfaceCount + 1 else c.interfaceCount

/-- **Every class to load first is named or reported**, whatever decoder reads the names. -/
theorem dependencies_accounted (decode : NameDecoder) (c : ClassFile) :
    ∃ interfaces, c.AccountsFor decode interfaces := by
  refine ⟨c.interfaces.toList, rfl, fun k hk => interfaceIndex_toList hk, ?_, ?_, ?_⟩
  · rw [dependencies_eq]
  · rw [dependencies_eq]
  · rw [dependencies_eq, Candidate.length_names_add_length_warnings, length_candidates]
    simp only [hasSuper, decide_eq_true_eq]
    rfl

/-- A class with its superclass again among its interfaces. The first interface is a text, the third
one no slot of the pool, and the bytes of the name of the last one are no name. -/
def partlyReportedClass : Layout where
  minor := 0
  major := 65
  count := 5
  entries := [.utf8 ⟨#[65]⟩, .classRef 1, .utf8 ⟨#[0xFF]⟩, .classRef 3]
  access := ⟨33⟩
  thisClass := 2
  superClass := 2
  interfaces := [1, 2, 9, 4]
  rest := ByteArray.empty

theorem partlyReportedClass_wellFormed : partlyReportedClass.WellFormed .reject where
  fills := .step (by decide) (.of_tag?_ne_none (by decide) (by decide))
    (.step (by decide) (.of_tag?_ne_none trivial (by decide))
      (.step (by decide) (.of_tag?_ne_none (by decide) (by decide))
        (.step (by decide) (.of_tag?_ne_none trivial (by decide)) (.done (by decide)))))
  length_lt := by decide

theorem dependencies_accounted_partlyReported :
    (load .reject partlyReportedClass.bytes).value = .ok partlyReportedClass.toClassFile ∧
      (∃ interfaces, partlyReportedClass.toClassFile.AccountsFor .simple interfaces) ∧
      ∃ fault, partlyReportedClass.toClassFile.dependencies .simple = ⟨[⟨#[65]⟩, ⟨#[65]⟩],
        [.unnamedInterface 0 (.wrongTag .classRef .utf8), .unnamedInterface 2 (.noSuchIndex 9 5),
          .unnamedInterface 3 (.badName fault)]⟩ :=
  ⟨Layout.load_bytes partlyReportedClass_wellFormed,
    dependencies_accounted .simple partlyReportedClass.toClassFile,
    ⟨"not modified UTF-8"⟩, by decide +kernel⟩

end ClassRelay.ClassFile
