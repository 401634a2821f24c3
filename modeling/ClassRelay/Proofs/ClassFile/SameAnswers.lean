import ClassRelay.ClassFile.Names
import ClassRelay.Proofs.ClassFile.Layout
import ClassRelay.Proofs.ClassFile.Pool.Walk

/-!
# Classes that answer alike

Two classes answer alike when no question but the one for their bytes tells them apart
(`SameAnswers`), whatever decoder reads the names. This is so when their pools index the same
entries and the fields around these agree (`Layout.WellFormed.sameAnswers`); what stands behind the
interfaces has no part in it.
-/

namespace ClassRelay.ClassFile

/-! ### Pools -/

/-- Two pools give the same answers, errors included, and the same walks. -/
structure Pool.SameAnswers (p p' : Pool) : Prop where
  count_eq : p'.count = p.count
  isEmpty_eq : p'.isEmpty = p.isEmpty
  byteSize_eq : p'.byteSize = p.byteSize
  get_eq : p'.get = p.get
  tag_eq : p'.tag = p.tag
  utf8_eq : p'.utf8 = p.utf8
  rawClassName_eq : p'.rawClassName = p.rawClassName
  className_eq : ∀ decode, p'.className decode = p.className decode
  entries_eq : p'.entries = p.entries
  /-- From every position, a step of a walk gives the same item and leads to the same position. -/
  next_eq : ∀ position, (Cursor.next ⟨p', position⟩).1 = (Cursor.next ⟨p, position⟩).1 ∧
    (Cursor.next ⟨p', position⟩).2.position = (Cursor.next ⟨p, position⟩).2.position
  bounds_eq : ∀ position, Cursor.bounds ⟨p', position⟩ = Cursor.bounds ⟨p, position⟩

/-- Pools that index the same entries give the same answers. -/
theorem Pool.Indexes.sameAnswers {policy policy' : UnknownTagPolicy} {p p' : Pool}
    {es : List Entry} (h : p.Indexes policy es) (h' : p'.Indexes policy' es)
    (hcount : p'.count = p.count) : p.SameAnswers p' := by
  have hoffsets : p'.offsets = p.offsets := h.offsets_congr h' hcount
  have hget : p'.get = p.get := funext (h.get_congr h' hcount)
  have hutf8 : p'.utf8 = p.utf8 := funext fun index => by rw [h'.utf8_eq, h.utf8_eq, hget]
  have hraw : p'.rawClassName = p.rawClassName := funext fun index => by
    rw [h'.rawClassName_eq, h.rawClassName_eq, hget, hutf8]
  refine
    { count_eq := hcount
      isEmpty_eq := by rw [isEmpty, isEmpty, hcount]
      byteSize_eq := by rw [byteSize, byteSize, h'.stop_eq, h.stop_eq]
      get_eq := hget
      tag_eq := funext fun index => by rw [h'.tag_eq, h.tag_eq, hget]
      utf8_eq := hutf8
      rawClassName_eq := hraw
      className_eq := fun decode => funext fun index => by rw [className, className, hraw]
      entries_eq := by rw [h'.entries_eq, h.entries_eq]
      next_eq := fun position => ?_
      bounds_eq := fun position => ?_ }
  · simp only [Cursor.next, hoffsets, hcount, hget]
    split <;> exact ⟨rfl, rfl⟩
  · simp only [Cursor.bounds, Cursor.remaining, hcount]

/-! ### Classes -/

/-- Two classes give the same answers to all questions but the one for their bytes. -/
structure SameAnswers (c c' : ClassFile) : Prop where
  pool : c.pool.SameAnswers c'.pool
  minor_eq : c'.minor = c.minor
  major_eq : c'.major = c.major
  access_eq : c'.access = c.access
  thisClass_eq : c'.thisClass = c.thisClass
  superClass_eq : c'.superClass = c.superClass
  interfaceCount_eq : c'.interfaceCount = c.interfaceCount
  interfaceIndex_eq : c'.interfaceIndex = c.interfaceIndex
  resolveName_eq : ∀ decode, c'.resolveName decode = c.resolveName decode
  name?_eq : ∀ decode, c'.name? decode = c.name? decode
  resolveSuper_eq : ∀ decode, c'.resolveSuper decode = c.resolveSuper decode
  superName?_eq : ∀ decode, c'.superName? decode = c.superName? decode
  hasSuper_eq : c'.hasSuper = c.hasSuper
  interfaceName_eq : ∀ decode, c'.interfaceName decode = c.interfaceName decode
  dependencies_eq : ∀ decode, c'.dependencies decode = c.dependencies decode
  /-- From every position, a step over the interfaces gives the same name and leads to the same
  position. -/
  nextInterface_eq : ∀ decode position,
    (InterfaceCursor.next decode ⟨c', position⟩).1 =
      (InterfaceCursor.next decode ⟨c, position⟩).1 ∧
    (InterfaceCursor.next decode ⟨c', position⟩).2.position =
      (InterfaceCursor.next decode ⟨c, position⟩).2.position
  interfaceBounds_eq : ∀ position,
    InterfaceCursor.bounds ⟨c', position⟩ = InterfaceCursor.bounds ⟨c, position⟩

/-- Classes with the same fields around pools that answer alike answer alike. -/
theorem sameAnswers_of_pool {c : ClassFile} {p' : Pool} (h : c.pool.SameAnswers p') :
    SameAnswers c { c with pool := p' } := by
  have hcount : ClassFile.interfaceCount { c with pool := p' } = c.interfaceCount := rfl
  have hname : ∀ decode, ClassFile.name? decode { c with pool := p' } = c.name? decode := by
    intro decode
    rw [name?, name?, resolveName, resolveName, h.className_eq]
  have hsuper : ∀ decode,
      ClassFile.resolveSuper decode { c with pool := p' } = c.resolveSuper decode := by
    intro decode
    rw [resolveSuper, resolveSuper, h.className_eq]
  have hsuper? : ∀ decode,
      ClassFile.superName? decode { c with pool := p' } = c.superName? decode := by
    intro decode
    rw [superName?, superName?, hsuper]
  have hinterface : ∀ decode,
      ClassFile.interfaceName decode { c with pool := p' } = c.interfaceName decode := by
    intro decode
    funext position
    simp only [interfaceName, h.className_eq]
    rfl
  refine
    { pool := h
      minor_eq := rfl
      major_eq := rfl
      access_eq := rfl
      thisClass_eq := rfl
      superClass_eq := rfl
      interfaceCount_eq := hcount
      interfaceIndex_eq := rfl
      resolveName_eq := fun decode => by rw [resolveName, resolveName, h.className_eq]
      name?_eq := hname
      resolveSuper_eq := hsuper
      superName?_eq := hsuper?
      hasSuper_eq := rfl
      interfaceName_eq := hinterface
      dependencies_eq := fun decode => ?_
      nextInterface_eq := fun decode position => ?_
      interfaceBounds_eq := fun position => rfl }
  · rw [dependencies, dependencies, hsuper?, hinterface]
    rfl
  · simp only [InterfaceCursor.next, hinterface, hcount]
    split <;> exact ⟨rfl, rfl⟩

/-- **What stands behind the interfaces does not count**: layouts that differ in nothing else are
read as classes that answer alike. -/
theorem Layout.WellFormed.sameAnswers {policy : UnknownTagPolicy} {l : Layout}
    (h : l.WellFormed policy) (rest : ByteArray) :
    SameAnswers l.toClassFile { l with rest := rest }.toClassFile := by
  have h' : { l with rest := rest }.WellFormed policy := ⟨h.fills, h.length_lt⟩
  have hcount : { l with rest := rest }.toClassFile.pool.count = l.toClassFile.pool.count :=
    Pool.count_ofEntries.trans Pool.count_ofEntries.symm
  exact sameAnswers_of_pool (h.indexes.sameAnswers h'.indexes hcount)

end ClassRelay.ClassFile
