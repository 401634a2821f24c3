import ClassRelay.ClassFile.Read

/-!
# Constant pool entries

An `Entry` is what one entry of a constant pool says, with its references to other entries left
as slot numbers. `Entry.encode` is its written form: the tag byte and then the fields, big end
first. `Entry.decode` reads an entry at an offset, whatever stands behind it.

An entry under an unknown tag has no known size. It is kept as a number and four bytes, which
is a guess, so `Entry.tag?` gives it no tag.
-/

namespace ClassRelay.ClassFile

open BigEndian

/-- One entry of a constant pool, its references unresolved. -/
inductive Entry
  /-- The bytes of a text, not decoded. -/
  | utf8 (bytes : ByteArray)
  | classRef (nameIndex : UInt16)
  | stringRef (textIndex : UInt16)
  | methodType (descriptorIndex : UInt16)
  | methodHandle (referenceKind : UInt8) (referenceIndex : UInt16)
  | moduleRef (nameIndex : UInt16)
  | packageRef (nameIndex : UInt16)
  | wide (tag : WideTag) (high low : UInt32)
  | word (tag : WordTag) (bits : UInt32)
  /-- An entry under a tag byte that no tag has, taken to be four bytes long. -/
  | unknown (number : UInt8) (bits : UInt32)
  deriving DecidableEq

namespace Entry

/-- The tag of an entry, if it has a known one. -/
def tag? : Entry → Option Tag
  | utf8 _ => some .utf8
  | classRef _ => some .classRef
  | stringRef _ => some .stringRef
  | methodType _ => some .methodType
  | methodHandle _ _ => some .methodHandle
  | moduleRef _ => some .moduleRef
  | packageRef _ => some .packageRef
  | wide tag _ _ => some (.wide tag)
  | word tag _ => some (.word tag)
  | unknown _ _ => none

/-- The tag byte of an entry. -/
def number : Entry → UInt8
  | unknown number _ => number
  | utf8 _ => Tag.number .utf8
  | classRef _ => Tag.number .classRef
  | stringRef _ => Tag.number .stringRef
  | methodType _ => Tag.number .methodType
  | methodHandle _ _ => Tag.number .methodHandle
  | moduleRef _ => Tag.number .moduleRef
  | packageRef _ => Tag.number .packageRef
  | wide tag _ _ => tag.number
  | word tag _ => tag.number

/-- The slots that an entry takes: two for a wide one, one for any other. -/
def slots : Entry → Nat
  | wide _ _ _ => 2
  | _ => 1

/-- The tag byte of an entry with a known tag is the byte of that tag. -/
theorem number_of_tag?_eq_some {e : Entry} {t : Tag} (h : e.tag? = some t) :
    e.number = t.number := by
  cases e <;> simp_all [tag?] <;> subst h <;> rfl

/-! ### Entries by what they mean -/

/-- A word entry of two slot numbers. -/
def pair (tag : WordTag) (first second : UInt16) : Entry :=
  word tag (UInt32.ofNat (65536 * first.toNat + second.toNat))

/-- The entry of a text, as standard UTF-8. -/
def text (s : String) : Entry :=
  utf8 s.toUTF8

/-- The entry of a 32-bit number. -/
def integer (value : Int32) : Entry :=
  word .integer value.toUInt32

/-- The entry of a 64-bit pattern, its upper half first. -/
def wideBits (tag : WideTag) (bits : UInt64) : Entry :=
  wide tag (bits >>> 32).toUInt32 bits.toUInt32

/-! ### Written form -/

/-- The fields of an entry, as they follow its tag byte. The length in front of a text has
sixteen bits; a longer text keeps all its bytes behind the low bits of its length. -/
def payload : Entry → ByteArray
  | utf8 bytes => encode16 (UInt16.ofNat bytes.size) ++ bytes
  | classRef index | stringRef index | methodType index | moduleRef index | packageRef index =>
    encode16 index
  | methodHandle kind index => ByteArray.empty.push kind ++ encode16 index
  | wide _ high low => encode32 high ++ encode32 low
  | word _ bits | unknown _ bits => encode32 bits

/-- The bytes of an entry. -/
def encode (e : Entry) : ByteArray :=
  ByteArray.empty.push e.number ++ e.payload

/-- Reads the length of a text and then the text. -/
def readText (b : ByteArray) (offset : Nat) : Except ClassError ByteArray := do
  let size ← readU16 b offset
  readBytes b (offset + 2) size.toNat

/-- Reads the fields that follow a tag byte. -/
def decodePayload (tag : Tag) (b : ByteArray) (offset : Nat) : Except ClassError Entry :=
  match tag with
  | .utf8 => utf8 <$> readText b offset
  | .classRef => classRef <$> readU16 b offset
  | .stringRef => stringRef <$> readU16 b offset
  | .methodType => methodType <$> readU16 b offset
  | .methodHandle => do
    let kind ← readU8 b offset
    let index ← readU16 b (offset + 1)
    return methodHandle kind index
  | .moduleRef => moduleRef <$> readU16 b offset
  | .packageRef => packageRef <$> readU16 b offset
  | .wide tag => do
    let high ← readU32 b offset
    let low ← readU32 b (offset + 4)
    return wide tag high low
  | .word tag => word tag <$> readU32 b offset

/-- Reads the entry at an offset. -/
def decode (b : ByteArray) (offset : Nat) : Except ClassError Entry := do
  let number ← readU8 b offset
  match Tag.ofNumber? number with
  | some tag => decodePayload tag b (offset + 1)
  | none => unknown number <$> readU32 b (offset + 1)

end Entry

end ClassRelay.ClassFile
