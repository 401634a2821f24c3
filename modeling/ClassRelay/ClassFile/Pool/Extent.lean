import ClassRelay.ClassFile.Entry
import ClassRelay.ClassFile.Warning

/-!
# Extents of entries

To index a pool one need not decode it: it is enough to know, entry by entry, how many bytes
and how many slots each takes. `Extent.read` finds that out from the tag byte, and for a text
from the length behind it. A tag byte that no tag has ends the scan or is taken to stand in
front of four bytes, as the `UnknownTagPolicy` says.
-/

namespace ClassRelay.ClassFile

/-- What to do with a tag byte that no tag has. -/
inductive UnknownTagPolicy
  /-- Refuse the class. -/
  | reject
  /-- Take the entry to hold four bytes and go on. The offsets behind it are right only if the
  guess was. -/
  | assumeFourBytes
  deriving DecidableEq

/-- Unless asked otherwise, unknown tags are refused. -/
instance : Inhabited UnknownTagPolicy := ⟨.reject⟩

/-- How far an entry reaches. -/
structure Extent where
  /-- The bytes after the tag byte. -/
  payload : Nat
  /-- Whether the entry takes two slots. -/
  isWide : Bool
  /-- The tag byte, where the size is a guess. -/
  guess? : Option UInt8
  deriving DecidableEq

namespace Extent

/-- The extent of an entry under an unknown tag. -/
def ofUnknown (policy : UnknownTagPolicy) (number : UInt8) : Except ClassError Extent :=
  match policy with
  | .reject => .error (.unknownTag number)
  | .assumeFourBytes => .ok ⟨guessedSize, false, some number⟩

/-- Reads the extent of the entry at an offset. -/
def read (policy : UnknownTagPolicy) (b : ByteArray) (offset : Nat) :
    Except ClassError Extent := do
  let number ← readU8 b offset
  match Tag.ofNumber? number with
  | none => ofUnknown policy number
  | some tag =>
    match tag.payloadSize? with
    | some size => return ⟨size, tag.isWide, none⟩
    | none =>
      let size ← readU16 b (offset + 1)
      return ⟨2 + size.toNat, tag.isWide, none⟩

/-- The warnings that stepping over an entry adds: one if its size is a guess. -/
def warn (extent : Extent) (index : Nat) (warnings : Array Warning) : Array Warning :=
  match extent.guess? with
  | some number => warnings.push (.guessed number index)
  | none => warnings

end Extent

end ClassRelay.ClassFile
