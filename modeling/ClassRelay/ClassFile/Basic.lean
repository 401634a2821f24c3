import ClassRelay.ClassFile.Access
import ClassRelay.ClassFile.Pool.Cursor

/-!
# Class files

A `ClassFile` is class bytes that were accepted: the index of their constant pool and the fixed
fields around it. `ClassFile.parse` accepts bytes that start as a class file does and hold

* the magic number, the two versions and the number of slots;
* the entries of the pool;
* the access flags, the slots of the class and of its superclass;
* the number of interfaces and their slots;

in this order. What stands behind them is not looked at. The magic number is judged **before**
the size, so that few foreign bytes still read as foreign. `ClassFile.load` also emits a
warning when bytes are refused.
-/

namespace ClassRelay

open ClassFile in
/-- An accepted class file: its indexed pool and the fields around it. -/
structure ClassFile where
  minor : UInt16
  major : UInt16
  pool : Pool
  access : AccessFlags
  /-- The slot of the class itself. -/
  thisClass : UInt16
  /-- The slot of the superclass, or zero. -/
  superClass : UInt16
  /-- The slots of the interfaces, in declared order. -/
  interfaces : Array UInt16
  deriving DecidableEq

namespace ClassFile

/-- The number that every class file starts with. -/
def magic : UInt32 := 0xCAFEBABE

/-- Whether bytes start as a class file does: with as much of the magic number as fits into
them, and with at least one byte of it. -/
def HasMagic (b : ByteArray) : Prop :=
  b.size ≠ 0 ∧ b.extract 0 4 = (BigEndian.encode32 magic).extract 0 b.size

instance (b : ByteArray) : Decidable (HasMagic b) :=
  inferInstanceAs (Decidable (_ ∧ _))

/-- Judges bytes by their start and their size, before anything else is read. -/
def checkStart (b : ByteArray) : Except ClassError Unit :=
  if ¬ HasMagic b then
    .error .badMagic
  else if b.size ≤ poolStart then
    .error (.tooSmall b.size (poolStart + 1))
  else
    .ok ()

/-- Reads the fields around a pool that is already indexed. Eight bytes stand between the pool
and the slots of the interfaces, and the last two of them say how many interfaces there are. -/
def ofPool (p : Pool) : Except ClassError ClassFile :=
  let b := p.bytes
  if h : p.stop + 8 ≤ b.size then
    let count := (word16 b (p.stop + 6) (by omega)).toNat
    if h' : p.stop + 8 + 2 * count ≤ b.size then
      .ok
        { minor := word16 b 4 (by omega)
          major := word16 b 6 (by omega)
          pool := p
          access := ⟨word16 b p.stop (by omega)⟩
          thisClass := word16 b (p.stop + 2) (by omega)
          superClass := word16 b (p.stop + 4) (by omega)
          interfaces := Array.ofFn fun k : Fin count =>
            word16 b (p.stop + 8 + 2 * k.val) (by have := k.isLt; omega) }
    else .error (.tooSmall b.size (p.stop + 8 + 2 * count))
  else .error (.tooSmall b.size (p.stop + 8))

/-- Reads class bytes, emitting what the scan of the pool emits. -/
def parse (policy : UnknownTagPolicy) (b : ByteArray) :
    Logged Warning (Except ClassError ClassFile) :=
  match checkStart b with
  | .error e => ⟨.error e, []⟩
  | .ok () =>
    let scanned := Pool.scan policy b
    ⟨scanned.value.bind ofPool, scanned.log⟩

/-- Reads class bytes; a refusal is emitted as the last warning. -/
def load (policy : UnknownTagPolicy) (b : ByteArray) :
    Logged Warning (Except ClassError ClassFile) := do
  let parsed ← parse policy b
  Logged.onError (.rejected b.size) parsed

/-! ### Fields -/

/-- The bytes of the class. -/
def bytes (c : ClassFile) : ByteArray := c.pool.bytes

/-- The size of the class in bytes. -/
def size (c : ClassFile) : Nat := c.bytes.size

/-- The number of interfaces that the class names. -/
def interfaceCount (c : ClassFile) : Nat := c.interfaces.size

/-- The slot of the interface at a position. -/
def interfaceIndex (c : ClassFile) (position : Nat) : Except ClassError UInt16 :=
  match c.interfaces[position]? with
  | some index => .ok index
  | none => .error (.noSuchInterface position (UInt16.ofNat c.interfaceCount))

end ClassFile

end ClassRelay
