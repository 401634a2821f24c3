import ClassRelay.Allocation
import ClassRelay.IoError

/-!
# Errors of channels

What can go wrong when a message is sent or received. A **transport failure** leaves the
transport in an unknown place between two frames, so the connection is lost; the other kinds
say what the peer or the host would not do.
-/

namespace ClassRelay

/-- Why a message was not sent or received. -/
inductive ChannelError
  /-- The transport failed. -/
  | io (error : IoError)
  /-- The transport wrote another number of bytes than the frame has. -/
  | shortWrite (expected actual : Nat)
  /-- The transport read another number of bytes than was asked for. -/
  | shortRead (expected actual : Nat)
  /-- A payload is larger than the channel lets pass. -/
  | payloadTooLarge (size : Nat) (limit : UInt32)
  /-- There was no room for the message. -/
  | allocationFailed (fault : AllocationFault)
  deriving DecidableEq

namespace ChannelError

/-- A coarse classification of errors. -/
inductive Kind
  | transportFailure
  | protocol
  | allocationFailed
  deriving DecidableEq

/-- The name of a kind. -/
def Kind.name : Kind → String
  | transportFailure => "TransportFailure"
  | protocol => "Protocol"
  | allocationFailed => "AllocationFailed"

/-- The kind of an error. -/
def kind : ChannelError → Kind
  | io _ | shortWrite _ _ | shortRead _ _ => .transportFailure
  | payloadTooLarge _ _ => .protocol
  | allocationFailed _ => .allocationFailed

/-- The error is a failure of the transport. -/
def isTransportFailure (e : ChannelError) : Bool :=
  e.kind = .transportFailure

/-- The text of an error. -/
def message : ChannelError → String
  | io error => s!"I/O error: {error.text}"
  | shortWrite expected actual => s!"short write: {actual} of {expected} bytes"
  | shortRead expected actual => s!"short read: {actual} of {expected} bytes"
  | payloadTooLarge size limit => s!"payload size {size} exceeds maximum {limit}"
  | allocationFailed fault => s!"failed to allocate message buffer: {fault.message}"

end ChannelError

end ClassRelay
