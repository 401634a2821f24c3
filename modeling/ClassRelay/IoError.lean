/-!
# Input and output errors

What a stream or a transport reports when it cannot move bytes: a kind and a text. The kind
`interrupted` asks for another try; every other kind goes to the caller as it is.
-/

namespace ClassRelay

namespace IoError

/-- The kinds of failure that are told apart. -/
inductive Kind
  | notFound
  | permissionDenied
  | connectionRefused
  | connectionReset
  | connectionAborted
  | notConnected
  | addrInUse
  | addrNotAvailable
  | brokenPipe
  | alreadyExists
  | wouldBlock
  | invalidInput
  | invalidData
  | timedOut
  | writeZero
  | interrupted
  | unsupported
  | unexpectedEof
  | outOfMemory
  | other
  deriving DecidableEq

namespace Kind

/-- All kinds. -/
def all : List Kind :=
  [notFound, permissionDenied, connectionRefused, connectionReset, connectionAborted,
    notConnected, addrInUse, addrNotAvailable, brokenPipe, alreadyExists, wouldBlock,
    invalidInput, invalidData, timedOut, writeZero, interrupted, unsupported, unexpectedEof,
    outOfMemory, other]

/-- The name of a kind. -/
def name : Kind → String
  | notFound => "NotFound"
  | permissionDenied => "PermissionDenied"
  | connectionRefused => "ConnectionRefused"
  | connectionReset => "ConnectionReset"
  | connectionAborted => "ConnectionAborted"
  | notConnected => "NotConnected"
  | addrInUse => "AddrInUse"
  | addrNotAvailable => "AddrNotAvailable"
  | brokenPipe => "BrokenPipe"
  | alreadyExists => "AlreadyExists"
  | wouldBlock => "WouldBlock"
  | invalidInput => "InvalidInput"
  | invalidData => "InvalidData"
  | timedOut => "TimedOut"
  | writeZero => "WriteZero"
  | interrupted => "Interrupted"
  | unsupported => "Unsupported"
  | unexpectedEof => "UnexpectedEof"
  | outOfMemory => "OutOfMemory"
  | other => "Other"

/-- The kind of exactly this name. -/
def ofName? (s : String) : Option Kind :=
  all.find? fun kind => kind.name = s

theorem mem_all (kind : Kind) : kind ∈ all := by
  cases kind <;> decide

end Kind

end IoError

/-- An error of a stream or a transport. -/
structure IoError where
  kind : IoError.Kind
  text : String
  deriving DecidableEq

end ClassRelay
