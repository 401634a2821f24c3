/-!
# Names

The bytes of a name in a class file are meant to be modified UTF-8, and writers exist that store
standard UTF-8. Reading them is **left to a decoder**, which is handed to every question that ends
in a name. This library looks at no byte of a name itself: it finds the bytes, hands them on, and
gives what the decoder says.
-/

namespace ClassRelay

/-- Why a decoder refuses bytes, in its own words. -/
structure NameFault where
  text : String
  deriving DecidableEq

/-- Reads the bytes of a name. A name is UTF-8 that may hold lone surrogates. -/
abbrev NameDecoder : Type :=
  ByteArray → Except NameFault ByteArray

end ClassRelay
