import ClassRelay.Assembler.Basic

/-!
# A sample class

A small class file with a superclass and two interfaces. Its pool also holds constants that
nothing names, two of them wide, so that slots and entries do not run in step.
-/

namespace ClassRelay.Assembler

open ClassFile

/-- Lays out the sample class. -/
def laySample : StateM Assembler Unit := do
  let thisClass ← addClass "com/example/Foo"
  let hello ← addText "hello"
  let _ ← addStringRef hello
  let _ ← addLong 0 42
  let superClass ← addClass "java/lang/Object"
  let _ ← addDouble 0x3FF8000000000000
  let runnable ← addClass "java/lang/Runnable"
  let serializable ← addClass "java/io/Serializable"
  let _ ← follow (.thisClass thisClass)
  let _ ← follow (.superClass superClass)
  let _ ← follow (.interface runnable)
  let _ ← follow (.interface serializable)

/-- The bytes of the sample class. -/
def sampleClass : ByteArray :=
  (laySample.run initial).2.assemble

end ClassRelay.Assembler
