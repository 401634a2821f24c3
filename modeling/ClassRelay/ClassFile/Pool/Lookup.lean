import ClassRelay.ClassFile.Pool.Basic

/-!
# Looking entries up

A slot number leads to an offset, and what stands there is read on demand. `Pool.get` decodes
the whole entry; `Pool.tag`, `Pool.utf8` and `Pool.rawClassName` read only what they need. They
ask for one tag, so an entry under an unknown tag is no answer for them although `Pool.get` can
show it.
-/

namespace ClassRelay.ClassFile.Pool

/-- The offset of the entry in a slot. -/
def offset (p : Pool) (index : UInt16) : Except ClassError Nat :=
  match p.offsets[index.toNat]? with
  | some (some offset) => .ok offset
  | some none => .error (.noEntry index)
  | none => .error (.noSuchIndex index p.count)

/-- The tag at an offset, which stands for slot `index`. -/
def tagAt (p : Pool) (index : UInt16) (offset : Nat) : Except ClassError Tag := do
  let number ← readU8 p.bytes offset
  match Tag.ofNumber? number with
  | some tag => return tag
  | none => throw (.opaqueEntry index number)

/-- The tag of the entry in a slot. -/
def tag (p : Pool) (index : UInt16) : Except ClassError Tag := do
  p.tagAt index (← p.offset index)

/-- The entry in a slot. -/
def get (p : Pool) (index : UInt16) : Except ClassError Entry := do
  Entry.decode p.bytes (← p.offset index)

/-- The offset of the entry in a slot, which must have the expected tag. -/
def expect (p : Pool) (index : UInt16) (expected : Tag) : Except ClassError Nat := do
  let offset ← p.offset index
  let actual ← p.tagAt index offset
  if actual = expected then return offset else throw (.wrongTag expected actual)

/-- The bytes of the text in a slot. -/
def utf8 (p : Pool) (index : UInt16) : Except ClassError ByteArray := do
  let offset ← p.expect index .utf8
  Entry.readText p.bytes (offset + 1)

/-- The bytes of the name that the class entry in a slot refers to. -/
def rawClassName (p : Pool) (index : UInt16) : Except ClassError ByteArray := do
  let offset ← p.expect index .classRef
  p.utf8 (← readU16 p.bytes (offset + 1))

/-- The name that the class entry in a slot refers to, as the decoder reads it. -/
def className (decode : NameDecoder) (p : Pool) (index : UInt16) :
    Except ClassError ByteArray := do
  let bytes ← p.rawClassName index
  match decode bytes with
  | .ok name => return name
  | .error fault => throw (.badName fault)

section ClassName

variable {decode : NameDecoder} {p : Pool} {index : UInt16} {raw : ByteArray}

theorem className_of_rawClassName_error {error : ClassError}
    (h : p.rawClassName index = .error error) : p.className decode index = .error error := by
  rw [className, h]
  rfl

theorem className_of_decode_ok {name : ByteArray} (h : p.rawClassName index = .ok raw)
    (hname : decode raw = .ok name) : p.className decode index = .ok name := by
  rw [className, h]
  dsimp only [bind, Except.bind]
  rw [hname]
  rfl

theorem className_of_decode_error {fault : NameFault} (h : p.rawClassName index = .ok raw)
    (hfault : decode raw = .error fault) : p.className decode index = .error (.badName fault) := by
  rw [className, h]
  dsimp only [bind, Except.bind]
  rw [hfault]
  rfl

end ClassName

end ClassRelay.ClassFile.Pool
