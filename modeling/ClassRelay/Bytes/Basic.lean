/-!
# Byte strings

Byte strings are the `ByteArray`s of the core library. They are compared as it compares them,
whatever other libraries are around.
-/

namespace ClassRelay

instance instDecidableEqByteArray : DecidableEq ByteArray := ByteArray.instDecidableEq

end ClassRelay
