import ClassRelay.ClassFile.Basic

/-!
# The names of a class

The class, its superclass and its interfaces are slots of the pool; here they become names, as
a decoder reads them. Questions whose name ends in a question mark answer with a name or nothing,
and what was wrong is emitted as a warning.

**The superclass.** Slot zero means that there is none. Slot one counts as no meaningful
superclass either: it can be resolved, but `hasSuper` does not count it and `dependencies`
leaves it out.
-/

namespace ClassRelay.ClassFile

variable (decode : NameDecoder)

/-- The name of the class, or why it has none. -/
def resolveName (c : ClassFile) : Except ClassError ByteArray :=
  c.pool.className decode c.thisClass

/-- The name of the class, if it can be read. -/
def name? (c : ClassFile) : Logged Warning (Option ByteArray) := do
  let name ← Logged.onError (.unnamedClass c.thisClass) (c.resolveName decode)
  return name.toOption

/-- The name of the superclass; nothing if there is none, or why it has no name. -/
def resolveSuper (c : ClassFile) : Except ClassError (Option ByteArray) :=
  if c.superClass = 0 then .ok none else some <$> c.pool.className decode c.superClass

/-- The name of the superclass, if there is one and it can be read. -/
def superName? (c : ClassFile) : Logged Warning (Option ByteArray) := do
  let name ← Logged.onError (.unnamedSuper c.superClass) (c.resolveSuper decode)
  return name.toOption.join

/-- Whether the class has a meaningful superclass. -/
def hasSuper (c : ClassFile) : Bool :=
  1 < c.superClass.toNat

/-- The name of the interface at a position. -/
def interfaceName (c : ClassFile) (position : Nat) : Logged Warning (Except ClassError ByteArray) :=
  Logged.onError (.unnamedInterface position) do
    c.pool.className decode (← c.interfaceIndex position)

/-- The classes to load before this one: the superclass if it is meaningful, then the
interfaces. Those without a readable name are left out. -/
def dependencies (c : ClassFile) : Logged Warning (List ByteArray) := do
  let superName ← if c.hasSuper then c.superName? decode else pure none
  let interfaceNames ← Logged.sequence ((List.range c.interfaceCount).map (c.interfaceName decode))
  return superName.toList ++ interfaceNames.filterMap Except.toOption

/-! ### Walking the interfaces -/

/-- A position in the interfaces of a class. -/
structure InterfaceCursor where
  owner : ClassFile
  position : Nat
  deriving DecidableEq

/-- A walk over the names of the interfaces, at its start. -/
def walkInterfaces (c : ClassFile) : InterfaceCursor := ⟨c, 0⟩

namespace InterfaceCursor

/-- The number of interfaces still to be walked. -/
def remaining (c : InterfaceCursor) : Nat := c.owner.interfaceCount - c.position

/-- The fewest and the most items that may still come; they are the same. -/
def bounds (c : InterfaceCursor) : Nat × Nat := (c.remaining, c.remaining)

/-- The name of the next interface, and the walk behind it. -/
def next (c : InterfaceCursor) :
    Logged Warning (Option (Except ClassError ByteArray)) × InterfaceCursor :=
  if c.position < c.owner.interfaceCount then
    (some <$> c.owner.interfaceName decode c.position, ⟨c.owner, c.position + 1⟩)
  else (pure none, c)

end InterfaceCursor

end ClassRelay.ClassFile
