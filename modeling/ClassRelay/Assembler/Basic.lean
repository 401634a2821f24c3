import ClassRelay.ClassFile.Basic

/-!
# Assembling class files

An `Assembler` lays out a class file: the entries of a constant pool one after the other, and
the fixed fields around it. Whoever adds an entry is told the slot that it starts in. A
`Directive` is one instruction to an assembler, so that a class file can be given as a list of
them; `Assembler.assemble` then writes the bytes, with no fields, methods or attributes behind
the interfaces.

Slot numbers have sixteen bits and wrap; the number of interfaces keeps its low sixteen bits.
Within those limits nothing is lost.
-/

namespace ClassRelay

open BigEndian ClassFile

/-- The class file that has been laid out so far. -/
structure Assembler where
  magic : UInt32 := ClassFile.magic
  minor : UInt16 := 0
  major : UInt16 := 65
  /-- The written entries of the pool. -/
  entries : ByteArray := ByteArray.empty
  /-- The slot that the next entry starts in. -/
  nextIndex : UInt16 := 1
  access : AccessFlags := (AccessFlags.ofFlag .accPublic).union (.ofFlag .accSuper)
  thisClass : UInt16 := 0
  superClass : UInt16 := 0
  interfaces : Array UInt16 := #[]
  deriving DecidableEq

/-- One instruction to an assembler. -/
inductive Directive
  | magic (value : UInt32)
  | version (major minor : UInt16)
  | access (flags : AccessFlags)
  | thisClass (index : UInt16)
  | superClass (index : UInt16)
  /-- Names one more interface. -/
  | interface (index : UInt16)
  /-- Adds a tag byte and bytes of any kind, which take as many slots as is said. -/
  | raw (tag : UInt8) (payload : ByteArray) (slots : UInt16)
  | entry (e : Entry)
  /-- Adds a text and then a class entry that refers to it. -/
  | namedClass (name : String)
  deriving DecidableEq

namespace Assembler

/-- An assembler with nothing laid out: a public class of version 65.0. -/
def initial : Assembler := {}

/-- The number of slots that the pool declares. -/
def poolCount (a : Assembler) : UInt16 := a.nextIndex

/-- Adds a tag byte and the bytes behind it, and tells the slot they start in. -/
def addRaw (tag : UInt8) (payload : ByteArray) (slots : UInt16) : StateM Assembler UInt16 :=
  modifyGet fun a =>
    (a.nextIndex,
      { a with entries := a.entries.push tag ++ payload, nextIndex := a.nextIndex + slots })

/-- Adds an entry, and tells the slot it starts in. -/
def addEntry (e : Entry) : StateM Assembler UInt16 :=
  addRaw e.number e.payload (UInt16.ofNat e.slots)

/-! ### Entries of one kind

Each adds the entry of its own values, as `Directive.entry` would. -/

def addText (text : String) : StateM Assembler UInt16 :=
  addEntry (.text text)

def addClassRef (nameIndex : UInt16) : StateM Assembler UInt16 :=
  addEntry (.classRef nameIndex)

/-- Adds a text and a class entry that refers to it, and tells the slot of the class entry. -/
def addClass (name : String) : StateM Assembler UInt16 := do
  let nameIndex ← addText name
  addClassRef nameIndex

def addStringRef (textIndex : UInt16) : StateM Assembler UInt16 :=
  addEntry (.stringRef textIndex)

def addMethodType (descriptorIndex : UInt16) : StateM Assembler UInt16 :=
  addEntry (.methodType descriptorIndex)

def addMethodHandle (referenceKind : UInt8) (referenceIndex : UInt16) : StateM Assembler UInt16 :=
  addEntry (.methodHandle referenceKind referenceIndex)

def addInteger (value : Int32) : StateM Assembler UInt16 :=
  addEntry (.integer value)

/-- Adds a number of single precision, given by its bits. -/
def addFloat (bits : UInt32) : StateM Assembler UInt16 :=
  addEntry (.word .float bits)

def addFieldRef (classIndex nameAndTypeIndex : UInt16) : StateM Assembler UInt16 :=
  addEntry (.pair .fieldRef classIndex nameAndTypeIndex)

def addMethodRef (classIndex nameAndTypeIndex : UInt16) : StateM Assembler UInt16 :=
  addEntry (.pair .methodRef classIndex nameAndTypeIndex)

def addNameAndType (nameIndex descriptorIndex : UInt16) : StateM Assembler UInt16 :=
  addEntry (.pair .nameAndType nameIndex descriptorIndex)

def addModuleRef (nameIndex : UInt16) : StateM Assembler UInt16 :=
  addEntry (.moduleRef nameIndex)

def addPackageRef (nameIndex : UInt16) : StateM Assembler UInt16 :=
  addEntry (.packageRef nameIndex)

/-- Adds a whole number of 64 bits, given by its two halves. -/
def addLong (high low : UInt32) : StateM Assembler UInt16 :=
  addEntry (.wide .long high low)

/-- Adds a number of double precision, given by its bits. -/
def addDouble (bits : UInt64) : StateM Assembler UInt16 :=
  addEntry (.wideBits .double bits)

/-! ### Instructions -/

/-- Follows one instruction, and tells the slot of the entry that it added, if it did. -/
def follow : Directive → StateM Assembler (Option UInt16)
  | .magic value => modifyGet fun a => (none, { a with magic := value })
  | .version major minor => modifyGet fun a => (none, { a with major := major, minor := minor })
  | .access flags => modifyGet fun a => (none, { a with access := flags })
  | .thisClass index => modifyGet fun a => (none, { a with thisClass := index })
  | .superClass index => modifyGet fun a => (none, { a with superClass := index })
  | .interface index => modifyGet fun a => (none, { a with interfaces := a.interfaces.push index })
  | .raw tag payload slots => some <$> addRaw tag payload slots
  | .entry e => some <$> addEntry e
  | .namedClass name => some <$> addClass name

/-- The bytes of the class file. -/
def assemble (a : Assembler) : ByteArray :=
  let head := encode32 a.magic ++ encode16 a.minor ++ encode16 a.major ++ encode16 a.nextIndex
  let info := encode16 a.access.bits ++ encode16 a.thisClass ++ encode16 a.superClass ++
    encode16 (UInt16.ofNat a.interfaces.size)
  let table := a.interfaces.foldl (fun bytes index => bytes ++ encode16 index) ByteArray.empty
  let members := encode16 0 ++ encode16 0 ++ encode16 0
  head ++ a.entries ++ info ++ table ++ members

end Assembler

end ClassRelay
