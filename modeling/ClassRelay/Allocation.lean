/-!
# Refused allocations

Room for a table or a message is asked for before it is used, and the host may refuse it. The
refusal is an ordinary error value, so that a caller can drop one class or one connection.

What a host refuses is up to the host. The functions of this library take the room to be there, at
the two places where they would ask for it: the table of a scan (`ClassFile.Pool.scan`) and the
buffer of a received body (`Channel.receiveBody`). So they give no such error; it is listed with
the others, and has its kind and its text like them.
-/

namespace ClassRelay

/-- Why room for a collection could not be had. -/
inductive AllocationFault
  /-- The size asked for is beyond what any collection may hold. -/
  | capacityOverflow
  deriving DecidableEq

/-- The text of a refused allocation. -/
def AllocationFault.message : AllocationFault → String
  | capacityOverflow =>
    "memory allocation failed because the computed capacity exceeded the collection's maximum"

end ClassRelay
