/-!
# Access flags

The access flags of a class are sixteen bits, nine of which have a name. `AccessFlags` keeps all
sixteen, named or not: the set operations are those of the bits, except that `complement` and
`known` look at the named bits only.
-/

namespace ClassRelay.ClassFile

/-- A named access flag. -/
inductive AccessFlag
  | accPublic
  | accFinal
  | accSuper
  | accInterface
  | accAbstract
  | accSynthetic
  | accAnnotation
  | accEnum
  | accModule
  deriving DecidableEq

namespace AccessFlag

/-- All named flags, from the lowest bit to the highest. -/
def all : List AccessFlag :=
  [accPublic, accFinal, accSuper, accInterface, accAbstract, accSynthetic, accAnnotation, accEnum,
    accModule]

/-- The bit of a flag. -/
def mask : AccessFlag → UInt16
  | accPublic => 0x0001
  | accFinal => 0x0010
  | accSuper => 0x0020
  | accInterface => 0x0200
  | accAbstract => 0x0400
  | accSynthetic => 0x1000
  | accAnnotation => 0x2000
  | accEnum => 0x4000
  | accModule => 0x8000

/-- The name of a flag. -/
def name : AccessFlag → String
  | accPublic => "Public"
  | accFinal => "Final"
  | accSuper => "Super"
  | accInterface => "Interface"
  | accAbstract => "Abstract"
  | accSynthetic => "Synthetic"
  | accAnnotation => "Annotation"
  | accEnum => "Enum"
  | accModule => "Module"

/-- The flag of exactly this name. -/
def ofName? (s : String) : Option AccessFlag :=
  all.find? fun flag => flag.name = s

theorem mem_all (flag : AccessFlag) : flag ∈ all := by
  cases flag <;> decide

end AccessFlag

/-- The access flags of a class: sixteen bits, named or not. -/
structure AccessFlags where
  bits : UInt16
  deriving DecidableEq

namespace AccessFlags

/-- No flag. -/
def none : AccessFlags := ⟨0⟩

/-- Every named flag. -/
def all : AccessFlags :=
  ⟨AccessFlag.all.foldl (fun bits flag => bits ||| flag.mask) 0⟩

/-- The flags of either set. -/
def union (a b : AccessFlags) : AccessFlags := ⟨a.bits ||| b.bits⟩

/-- The flags of both sets. -/
def inter (a b : AccessFlags) : AccessFlags := ⟨a.bits &&& b.bits⟩

/-- The flags of the first set that are not in the second. -/
def diff (a b : AccessFlags) : AccessFlags := ⟨a.bits &&& ~~~b.bits⟩

/-- The flags of exactly one of the sets. -/
def symmDiff (a b : AccessFlags) : AccessFlags := ⟨a.bits ^^^ b.bits⟩

/-- The named flags of the set. -/
def known (a : AccessFlags) : AccessFlags := a.inter all

/-- The bits of the set that have no name. -/
def unknown (a : AccessFlags) : AccessFlags := a.diff all

/-- The named flags outside the set. -/
def complement (a : AccessFlags) : AccessFlags := all.diff a

/-- Whether every flag of the second set is in the first. -/
def contains (a b : AccessFlags) : Bool := a.inter b = b

/-- Whether the two sets share a flag. -/
def intersects (a b : AccessFlags) : Bool := a.inter b ≠ none

/-- The set of one named flag. -/
def ofFlag (flag : AccessFlag) : AccessFlags := ⟨flag.mask⟩

/-- The bits as a set, if every one of them has a name. -/
def ofBits? (bits : UInt16) : Option AccessFlags :=
  if (AccessFlags.mk bits).unknown = none then some ⟨bits⟩ else Option.none

/-- The named flags of the set, from the lowest bit to the highest. -/
def flags (a : AccessFlags) : List AccessFlag :=
  AccessFlag.all.filter fun flag => a.contains (ofFlag flag)

/-- A number in lower-case hexadecimal. -/
def hexText (n : UInt16) : String :=
  "0x" ++ String.ofList (Nat.toDigits 16 n.toNat)

/-- The names of the set's flags, then its unnamed bits if there are any. -/
def parts (a : AccessFlags) : List String :=
  a.flags.map AccessFlag.name ++ if a.unknown = none then [] else [hexText a.unknown.bits]

/-- The set as text: its parts between bars, or a zero if it has none. -/
def text (a : AccessFlags) : String :=
  if a = none then hexText 0 else " | ".intercalate a.parts

@[simp] theorem mem_flags {a : AccessFlags} {flag : AccessFlag} :
    flag ∈ a.flags ↔ a.contains (ofFlag flag) = true := by
  simp [flags, AccessFlag.mem_all]

end AccessFlags

end ClassRelay.ClassFile
