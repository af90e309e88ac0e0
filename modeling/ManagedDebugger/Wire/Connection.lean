import ManagedDebugger.Wire.Command
import ManagedDebugger.Wire.Notification
import ManagedDebugger.Wire.Packet

/-!
A connection to a debug agent: commands go out under increasing ids, replies come back to the command
of their id, and event packets become notifications. A stream that cannot be read ends the
connection, and whoever still waits learns that.
-/

namespace ManagedDebugger.Wire

/-- Either side opens with these bytes. -/
def handshake : Bytes := Text.utf8Bytes "MDBG-Handshake"

/-- Why a connection is not opened, given all that the agent sent before it fell silent. -/
def handshakeFault? (received : Bytes) : Option NativeError :=
  if received.length < handshake.length then some .io
  else if received.take handshake.length = handshake then none
  else some .invalidHandshake

structure Connection where
  nextId : UInt32
  /-- Commands that were sent and have no reply yet. -/
  pending : List UInt32
  /-- Bytes of a packet that is not complete yet. -/
  buffer : Bytes
  isOpen : Bool
  deriving Repr

/-- What arrives for the session. -/
inductive Delivery where
  | reply (id : UInt32) (code : UInt16) (payload : Bytes)
  | notified (events : List NativeEvent)
  /-- The command of this id gets no reply any more. -/
  | lost (id : UInt32)
  deriving Repr

namespace Connection

def start (received : Bytes) : Connection := ⟨1, [], received, true⟩

/-- Writes a command and waits for the reply to its id. There is none to wait for if the connection
has ended, or if the stream does not take the command. -/
def post (c : Connection) (p : Packet) (takes : Bool) : Connection × Except NativeError Packet :=
  if c.isOpen = false then (c, .error .connectionClosed)
  else if takes = false then (c, .error .io)
  else ({ c with pending := c.pending ++ [p.id] }, .ok p)

/-- The packet of a call, unless the connection has ended. An id is used up either way. -/
def send (c : Connection) (call : NativeCall) : Connection × Option Packet :=
  let (c, result) := { c with nextId := c.nextId + 1 }.post (call.packet c.nextId) true
  (c, result.toOption)

/-- Packets that are neither a reply somebody waits for nor an event packet are ignored, and so is an
event packet that cannot be read. -/
def accept (c : Connection) (p : Packet) : Connection × List Delivery :=
  match p.kind with
  | .reply code =>
    if c.pending.contains p.id then
      ({ c with pending := c.pending.filter (· != p.id) }, [.reply p.id code p.payload])
    else (c, [])
  | .command 64 100 =>
    match Layout.events? p.payload with
    | .ok events => (c, [.notified events])
    | .error _ => (c, [])
  | .command .. => (c, [])

def acceptAll (c : Connection) : List Packet → Connection × List Delivery
  | [] => (c, [])
  | p :: rest =>
    let (c, first) := c.accept p
    let (c, others) := c.acceptAll rest
    (c, first ++ others)

/-- The end of the stream. -/
def finish (c : Connection) : Connection × List Delivery :=
  ({ c with pending := [], buffer := [], isOpen := false }, c.pending.map .lost)

/-- More bytes of the stream. -/
def receive (c : Connection) (bytes : Bytes) : Connection × List Delivery :=
  if c.isOpen then
    let (packets, rest, readable) := packetsOf (c.buffer ++ bytes)
    let (c, deliveries) := { c with buffer := rest }.acceptAll packets
    if readable then (c, deliveries)
    else
      let (c, lost) := c.finish
      (c, deliveries ++ lost)
  else (c, [])

end Connection

end ManagedDebugger.Wire
