import ClassRelay.Bytes.BigEndian
import ClassRelay.Bytes.Buffers
import ClassRelay.Channel.Error
import ClassRelay.Channel.Message
import ClassRelay.Channel.Transport
import ClassRelay.Log

/-!
# Message channels

A `Channel` sends and receives messages over a transport, one **frame** each:

* the size of the payload, as four bytes, big end first;
* the payload, which is opaque; of an empty one nothing is sent or read.

There is no magic number, checksum or type in a frame. Header and payload are one gathered
write. The channel never asks a transport twice: if it reports another number of bytes than the
frame needs, the operation fails. A payload above the limit of the channel is refused in both
directions, before it is written and before it is read.
-/

namespace ClassRelay

/-- A step of a channel that is worth a log record. -/
inductive Event
  /-- A payload of this size is about to be sent. -/
  | sending (size : Nat)
  /-- A frame of this size was sent. -/
  | sent (size : Nat)
  /-- A frame announces a payload of this size. -/
  | expecting (size : Nat)
  /-- A payload of this size was received. -/
  | received (size : Nat)
  deriving DecidableEq

/-- The text of an event. -/
def Event.message : Event → String
  | sending size => s!"sending message: {size} bytes"
  | sent size => s!"sent {size} bytes"
  | expecting size => s!"receiving message: expecting {size} bytes"
  | received size => s!"received {size} bytes"

/-- An event as a log record. -/
def Event.record (e : Event) : LogRecord :=
  ⟨.debug, e.message⟩

/-- The size of the header of a frame. -/
def headerSize : Nat := 4

/-- A transport that carries frames, and the largest payload it lets pass. -/
structure Channel (τ : Type) where
  transport : τ
  maxPayload : UInt32 := 0xFFFFFFFF
  deriving DecidableEq

/-- What an operation on a channel leaves behind: its result, the channel, and what happened. -/
structure Outcome (τ α : Type) where
  result : Except ChannelError α
  channel : Channel τ
  events : List Event

namespace Channel

variable {τ : Type} [Transport τ]

/-- The size of a payload as a header holds it, if the channel lets it pass. -/
def checkSize (c : Channel τ) (size : Nat) : Except ChannelError UInt32 :=
  if size ≤ c.maxPayload.toNat then
    .ok (UInt32.ofNat size)
  else
    .error (.payloadTooLarge size c.maxPayload)

/-- Writes buffers as one; reports how many bytes they hold if the transport wrote as many. -/
def write (c : Channel τ) (bufs : List ByteArray) : Except ChannelError Nat × Channel τ :=
  match Transport.writeAll bufs c.transport with
  | (.error e, t) => (.error (.io e), { c with transport := t })
  | (.ok actual, t) =>
    let expected := Buffers.size bufs
    (if actual = expected then .ok actual else .error (.shortWrite expected actual),
      { c with transport := t })

/-- Fills a buffer of `n` bytes, if the transport read as many. -/
def fill (c : Channel τ) (n : Nat) : Except ChannelError (Chunk n) × Channel τ :=
  match Transport.fill n c.transport with
  | (.error e, t) => (.error (.io e), { c with transport := t })
  | (.ok (actual, chunk), t) =>
    (if actual = n then .ok chunk else .error (.shortRead n actual), { c with transport := t })

/-- The size that a header announces. -/
def announced (header : Chunk headerSize) : UInt32 :=
  have h : header.padded.size = 4 := header.size_padded
  BigEndian.decode32 header.padded[0] header.padded[1] header.padded[2] header.padded[3]

/-- Sends a payload as one frame. Tells how many bytes the frame has. -/
def send (c : Channel τ) (payload : ByteArray) : Outcome τ Nat :=
  match c.checkSize payload.size with
  | .error e => ⟨.error e, c, []⟩
  | .ok size =>
    match c.write [BigEndian.encode32 size, payload] with
    | (.error e, c) => ⟨.error e, c, [.sending payload.size]⟩
    | (.ok sent, c) => ⟨.ok sent, c, [.sending payload.size, .sent sent]⟩

/-- Receives the body of a frame whose header announced a size.

The buffer for it is **taken to be had**. A host that refuses the room ends the receive with
`ChannelError.allocationFailed` before the body is read; that answer belongs to the host, and no
receive here gives it. -/
def receiveBody (c : Channel τ) (size : Nat) : Outcome τ Message :=
  if size = 0 then
    ⟨.ok .empty, c, [.expecting 0]⟩
  else
    match c.fill size with
    | (.error e, c) => ⟨.error e, c, [.expecting size]⟩
    | (.ok body, c) => ⟨.ok (.ofPayload body.padded), c, [.expecting size, .received size]⟩

/-- Receives the message of one frame. -/
def receive (c : Channel τ) : Outcome τ Message :=
  match c.fill headerSize with
  | (.error e, c) => ⟨.error e, c, []⟩
  | (.ok header, c) =>
    match c.checkSize (announced header).toNat with
    | .error e => ⟨.error e, c, []⟩
    | .ok size => c.receiveBody size.toNat

/-- Sends a request and receives the response to it. -/
def exchange (c : Channel τ) (request : ByteArray) : Outcome τ Message :=
  match c.send request with
  | ⟨.error e, c, events⟩ => ⟨.error e, c, events⟩
  | ⟨.ok _, c, events⟩ =>
    let response := c.receive
    { response with events := events ++ response.events }

end Channel

end ClassRelay
