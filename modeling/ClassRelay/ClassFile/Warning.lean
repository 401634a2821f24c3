import ClassRelay.ClassFile.Error
import ClassRelay.Log

/-!
# Warnings about class files

A class may be loaded although something in it is wrong. What was wrong is emitted as a
`Warning`, next to the answer that the caller gets.
-/

namespace ClassRelay.ClassFile

/-- The bytes that an entry under an unknown tag is taken to hold. -/
def guessedSize : Nat := 4

/-- Something about a class file that an operator should hear of. -/
inductive Warning
  /-- The scan stepped over an unknown tag, guessing the size of its entry. -/
  | guessed (tag : UInt8) (index : Nat)
  /-- The bytes were not accepted as a class file. -/
  | rejected (size : Nat) (cause : ClassError)
  /-- The class has no readable name. -/
  | unnamedClass (index : UInt16) (cause : ClassError)
  /-- The superclass has no readable name. -/
  | unnamedSuper (index : UInt16) (cause : ClassError)
  /-- An interface has no readable name. -/
  | unnamedInterface (position : Nat) (cause : ClassError)
  deriving DecidableEq

namespace Warning

/-- The text of a warning. -/
def message : Warning → String
  | guessed tag index =>
    s!"unknown constant pool tag {tag} at index {index}, assuming {guessedSize} bytes"
  | rejected size cause => s!"rejected class bytes ({size} bytes): {cause.message}"
  | unnamedClass index cause =>
    s!"failed to resolve class name at index {index}: {cause.message}"
  | unnamedSuper index cause =>
    s!"failed to resolve superclass name at index {index}: {cause.message}"
  | unnamedInterface position cause =>
    s!"failed to resolve interface {position}: {cause.message}"

/-- A warning as a log record. -/
def record (w : Warning) : LogRecord :=
  ⟨.warn, w.message⟩

end Warning

end ClassRelay.ClassFile
