import ClassRelay.ClassFile.Pool.Extent

/-!
# The constant pool

A `Pool` is an index over class bytes: for every slot the offset of the entry that starts
there. **Slots without an entry** are slot zero, which exists so that numbering starts at one,
and the shadow of a wide entry, the slot after its own.

`Pool.scan` builds the index in one pass over the entries. It walks from extent to extent and
fills slots until the declared count is reached; a wide entry in the last slot has no room for
its shadow, and the pool then ends without one.
-/

namespace ClassRelay.ClassFile

/-- Where the first entry of the pool stands. -/
def poolStart : Nat := 10

/-- Where the declared number of slots stands. -/
def poolCountOffset : Nat := 8

/-- An index over the constant pool of class bytes. -/
structure Pool where
  /-- The bytes of the whole class. -/
  bytes : ByteArray
  /-- For each slot, the offset of the entry that starts there. -/
  offsets : Array (Option Nat)
  /-- The offset behind the last entry. -/
  stop : Nat
  deriving DecidableEq

namespace Pool

/-- The declared number of slots; entries stand in slots from one on. -/
def count (p : Pool) : Nat := p.offsets.size

/-- Whether the pool has no slot for an entry. -/
def isEmpty (p : Pool) : Bool := p.count ≤ 1

/-- The bytes that the entries take. -/
def byteSize (p : Pool) : Nat := p.stop - poolStart

/-! ### The scan -/

/-- Indexes the entries from `cursor` on, behind the slots that are filled already, until no
room is left. -/
def scanFrom (policy : UnknownTagPolicy) (b : ByteArray) (room cursor : Nat)
    (offsets : Array (Option Nat)) (warnings : Array Warning) :
    Logged Warning (Except ClassError Pool) :=
  match room with
  | 0 => ⟨.ok ⟨b, offsets, cursor⟩, warnings.toList⟩
  | room + 1 =>
    match Extent.read policy b cursor with
    | .error e => ⟨.error e, warnings.toList⟩
    | .ok extent =>
      let next := cursor + 1 + extent.payload
      let warnings := extent.warn offsets.size warnings
      if b.size < next then
        ⟨.error (.outOfBounds (next - 1) b.size), warnings.toList⟩
      else if extent.isWide then
        match room with
        | 0 => scanFrom policy b 0 next (offsets.push (some cursor)) warnings
        | room + 1 =>
          scanFrom policy b room next ((offsets.push (some cursor)).push none) warnings
      else
        scanFrom policy b room next (offsets.push (some cursor)) warnings

/-- Indexes the constant pool of class bytes.

The table for the declared number of slots is **taken to be had**. A host that refuses the room
ends the scan with `ClassError.allocationFailed` once the number is read; that answer belongs to
the host, and no scan here gives it. -/
def scan (policy : UnknownTagPolicy) (b : ByteArray) : Logged Warning (Except ClassError Pool) :=
  match readU16 b poolCountOffset with
  | .error e => ⟨.error e, []⟩
  | .ok count =>
    match count.toNat with
    | 0 => ⟨.ok ⟨b, #[], poolStart⟩, []⟩
    | room + 1 => scanFrom policy b room poolStart #[none] #[]

end Pool

end ClassRelay.ClassFile
