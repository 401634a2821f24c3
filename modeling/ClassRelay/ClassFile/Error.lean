import ClassRelay.Allocation
import ClassRelay.ClassFile.Tag
import ClassRelay.Text.Name

/-!
# Errors of class files

`ClassError` lists the causes. Each belongs to one `Kind`, and the kinds split in two: a
**structural** error rejects the class as a whole, a **lookup** error is the answer to one
question about a class that stays usable.
-/

namespace ClassRelay.ClassFile

/-- What is wrong with a class file, or with one question about it. -/
inductive ClassError
  /-- There was no room for the index of the pool. -/
  | allocationFailed (fault : AllocationFault)
  /-- The pool has no slot `index`. -/
  | noSuchIndex (index : UInt16) (count : Nat)
  /-- Slot `index` exists and holds no entry. -/
  | noEntry (index : UInt16)
  /-- The scan met a tag byte that it does not know. -/
  | unknownTag (tag : UInt8)
  /-- The entry is of another kind than the question needs. -/
  | wrongTag (expected actual : Tag)
  /-- The entry has an unknown tag, so its payload has no meaning. -/
  | opaqueEntry (index : UInt16) (tag : UInt8)
  /-- The class has no interface at this position. -/
  | noSuchInterface (position : Nat) (count : UInt16)
  /-- The bytes do not start as a class file does. -/
  | badMagic
  /-- A read of the byte at `index`, past the end. -/
  | outOfBounds (index size : Nat)
  /-- The bytes end before the fixed part that they must hold. -/
  | tooSmall (size required : Nat)
  /-- The decoder refuses the bytes of a name. -/
  | badName (fault : NameFault)
  deriving DecidableEq

namespace ClassError

/-- A coarse classification of errors. -/
inductive Kind
  | invalidMagic
  | tooSmall
  | allocationFailed
  | malformed
  | indexOutOfRange
  | wrongTag
  | badEncoding
  deriving DecidableEq

/-- The name of a kind. -/
def Kind.name : Kind → String
  | invalidMagic => "InvalidMagic"
  | tooSmall => "TooSmall"
  | allocationFailed => "AllocationFailed"
  | malformed => "Malformed"
  | indexOutOfRange => "IndexOutOfRange"
  | wrongTag => "WrongTag"
  | badEncoding => "BadEncoding"

/-- The kinds that reject a class as a whole. -/
def Kind.isStructural : Kind → Bool
  | invalidMagic | tooSmall | allocationFailed | malformed => true
  | indexOutOfRange | wrongTag | badEncoding => false

/-- The kind of an error. -/
def kind : ClassError → Kind
  | badMagic => .invalidMagic
  | tooSmall _ _ => .tooSmall
  | allocationFailed _ => .allocationFailed
  | outOfBounds _ _ | unknownTag _ => .malformed
  | noSuchIndex _ _ | noEntry _ | noSuchInterface _ _ => .indexOutOfRange
  | wrongTag _ _ | opaqueEntry _ _ => .wrongTag
  | badName _ => .badEncoding

/-- The error rejects the class as a whole. -/
def isStructural (e : ClassError) : Bool :=
  e.kind.isStructural

/-- The error answers one question; the class stays usable. -/
def isLookup (e : ClassError) : Bool :=
  !e.isStructural

/-- The text of an error. -/
def message : ClassError → String
  | allocationFailed fault => s!"failed to allocate constant pool index: {fault.message}"
  | noSuchIndex index count => s!"bad constant pool index: {index}, len {count}"
  | noEntry index => s!"no entry at constant pool index: {index}"
  | unknownTag tag => s!"bad constant pool tag: {tag}"
  | wrongTag expected actual =>
    s!"bad constant pool tag: {actual.name}, expected {expected.name}"
  | opaqueEntry index tag => s!"unknown constant pool tag {tag} at index {index}"
  | noSuchInterface position count =>
    s!"requested interface index out of range: {position}, count {count}"
  | badMagic => "bad magic number"
  | outOfBounds index size =>
    s!"read past the end of the class file, index {index}, len {size}"
  | tooSmall size required => s!"class file too small: {size} bytes, need at least {required}"
  | badName fault => s!"utf8 error: {fault.text}"

end ClassError

end ClassRelay.ClassFile
