/-!
# Tags of constant pool entries

Every entry starts with a tag byte that says what follows it. The seventeen tags fall into
shapes, and `Tag` is built along them: tags whose payload has a shape of its own are
constructors, the two **wide** tags share the eight-byte payload that takes two slots, and the
**word** tags share the four-byte payload. `Tag.ofNumber?` reads a tag byte and is inverse to
`Tag.number` (`ofNumber?_eq_some_iff`).
-/

namespace ClassRelay.ClassFile

/-- Tags of entries with eight bytes of payload, which take two slots. -/
inductive WideTag
  | long
  | double
  deriving DecidableEq

/-- Tags of entries with four bytes of payload. -/
inductive WordTag
  | integer
  | float
  | fieldRef
  | methodRef
  | interfaceMethodRef
  | nameAndType
  | dynamic
  | invokeDynamic
  deriving DecidableEq

/-- What a constant pool entry holds. -/
inductive Tag
  | utf8
  | classRef
  | stringRef
  | methodType
  | methodHandle
  | moduleRef
  | packageRef
  | wide (tag : WideTag)
  | word (tag : WordTag)
  deriving DecidableEq

/-- The byte that stands for a wide tag. -/
def WideTag.number : WideTag → UInt8
  | long => 5
  | double => 6

/-- The byte that stands for a word tag. -/
def WordTag.number : WordTag → UInt8
  | integer => 3
  | float => 4
  | fieldRef => 9
  | methodRef => 10
  | interfaceMethodRef => 11
  | nameAndType => 12
  | dynamic => 17
  | invokeDynamic => 18

/-- The name of a wide tag. -/
def WideTag.name : WideTag → String
  | long => "Long"
  | double => "Double"

/-- The name of a word tag. -/
def WordTag.name : WordTag → String
  | integer => "Integer"
  | float => "Float"
  | fieldRef => "FieldRef"
  | methodRef => "MethodRef"
  | interfaceMethodRef => "InterfaceMethodRef"
  | nameAndType => "NameAndType"
  | dynamic => "Dynamic"
  | invokeDynamic => "InvokeDynamic"

namespace Tag

/-- The byte that stands for a tag. -/
def number : Tag → UInt8
  | utf8 => 1
  | classRef => 7
  | stringRef => 8
  | methodType => 16
  | methodHandle => 15
  | moduleRef => 19
  | packageRef => 20
  | wide tag => tag.number
  | word tag => tag.number

/-- The name of a tag, as messages show it. -/
def name : Tag → String
  | utf8 => "Utf8"
  | classRef => "Class"
  | stringRef => "String"
  | methodType => "MethodType"
  | methodHandle => "MethodHandle"
  | moduleRef => "Module"
  | packageRef => "Package"
  | wide tag => tag.name
  | word tag => tag.name

/-- The tag that a byte stands for, if it is a known one. -/
def ofNumber? (n : UInt8) : Option Tag :=
  match n.toNat with
  | 1 => some utf8
  | 3 => some (word .integer)
  | 4 => some (word .float)
  | 5 => some (wide .long)
  | 6 => some (wide .double)
  | 7 => some classRef
  | 8 => some stringRef
  | 9 => some (word .fieldRef)
  | 10 => some (word .methodRef)
  | 11 => some (word .interfaceMethodRef)
  | 12 => some (word .nameAndType)
  | 15 => some methodHandle
  | 16 => some methodType
  | 17 => some (word .dynamic)
  | 18 => some (word .invokeDynamic)
  | 19 => some moduleRef
  | 20 => some packageRef
  | _ => none

/-- Whether entries with this tag take two slots of the pool. -/
def isWide : Tag → Bool
  | wide _ => true
  | _ => false

/-- The bytes after the tag byte; none for text, whose size is part of the entry. -/
def payloadSize? : Tag → Option Nat
  | utf8 => none
  | classRef | stringRef | methodType | moduleRef | packageRef => some 2
  | methodHandle => some 3
  | word _ => some 4
  | wide _ => some 8

/-- Every tag is read back from its byte. -/
theorem ofNumber?_number (t : Tag) : ofNumber? t.number = some t := by
  cases t with
  | wide t => cases t <;> rfl
  | word t => cases t <;> rfl
  | _ => rfl

/-- A byte is read as a tag exactly when it is the byte of that tag. -/
theorem ofNumber?_eq_some_iff {n : UInt8} {t : Tag} : ofNumber? n = some t ↔ n = t.number := by
  constructor
  · intro h
    apply UInt8.toNat_inj.mp
    simp only [ofNumber?] at h
    split at h <;> simp_all <;> subst h <;> rfl
  · rintro rfl
    exact ofNumber?_number t

end Tag

end ClassRelay.ClassFile
