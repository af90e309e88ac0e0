import ManagedDebugger.Wire.Layout

/-!
Packets. A header of eleven bytes holds the length with the header, the id, and either a command or
the error code of a reply; the payload follows.
-/

namespace ManagedDebugger.Wire

def headerSize : Nat := 11

/-- A packet that claims to be longer ends the connection. -/
def maxPacketSize : Nat := 10 * 1024 * 1024

inductive PacketKind where
  | command (set number : UInt8)
  | reply (code : UInt16)
  deriving DecidableEq, Repr, Inhabited

structure Header where
  length : Nat
  id : UInt32
  kind : PacketKind
  deriving DecidableEq, Repr, Inhabited

structure Packet where
  id : UInt32
  kind : PacketKind
  payload : Bytes
  deriving DecidableEq, Repr, Inhabited

/-- A flag tells commands from replies. -/
def PacketKind.layout : Layout PacketKind where
  put
    | .command set number => Layout.u8.put 0x00 ++ Layout.u8.put set ++ Layout.u8.put number
    | .reply code => Layout.u8.put 0x80 ++ Layout.u16.put code
  read := do
    let flags ← Layout.u8.read
    if flags = 0x00 then do
      let set ← Layout.u8.read
      let number ← Layout.u8.read
      pure (.command set number)
    else if flags = 0x80 then do
      let code ← Layout.u16.read
      pure (.reply code)
    else refuse ("Invalid packet flags: 0x" ++ Text.hexDigits flags.toNat)

def Header.payloadLength (h : Header) : Nat := h.length - headerSize

def Header.parse (bytes : Bytes) : Except NativeError Header := do
  if bytes.length < headerSize then
    .error (.protocol ("Short packet header: " ++ toString bytes.length ++ " bytes"))
  else
    let ((length, id, kind), _) ←
      (Layout.u32.pair (Layout.u32.pair PacketKind.layout)).read bytes
    if length.toNat < headerSize then
      .error (.protocol ("Invalid packet length: " ++ toString length.toNat))
    else .ok ⟨length.toNat, id, kind⟩

def Packet.encode (p : Packet) : Bytes :=
  Layout.u32.put (headerSize + p.payload.length).toUInt32 ++ Layout.u32.put p.id ++
    PacketKind.layout.put p.kind ++ p.payload

/-- The payload of a reply, unless its code is an error. -/
def replyResult (code : UInt16) (payload : Bytes) : Except NativeError Bytes :=
  if code = 0 then .ok payload else .error (.agent code)

/-- What the front of a stream holds. -/
inductive Framed where
  | packet (p : Packet) (rest : Bytes)
  /-- The packet is not complete yet. -/
  | more
  | broken (error : NativeError)
  deriving Repr

def nextPacket (stream : Bytes) : Framed :=
  if stream.length < headerSize then .more
  else match Header.parse stream with
    | .error e => .broken e
    | .ok h =>
      if maxPacketSize < h.length then
        .broken (.protocol ("Packet too large: " ++ toString h.length ++ " bytes (max: "
          ++ toString maxPacketSize ++ " bytes)"))
      else if stream.length < h.length then .more
      else .packet ⟨h.id, h.kind, (stream.take h.length).drop headerSize⟩ (stream.drop h.length)

/-- Reads a packet from all the bytes that will ever arrive. -/
def readPacket (stream : Bytes) : Except NativeError (Packet × Bytes) :=
  match nextPacket stream with
  | .packet p rest => .ok (p, rest)
  | .more => .error .io
  | .broken e => .error e

/-- The complete packets of a stream, what is left, and whether the stream can still be read. -/
def packetsOf (stream : Bytes) : List Packet × Bytes × Bool :=
  match nextPacket stream with
  | .more => ([], stream, true)
  | .broken _ => ([], stream, false)
  | .packet p rest =>
    if rest.length < stream.length then
      let (packets, rest, readable) := packetsOf rest
      (p :: packets, rest, readable)
    else ([], stream, false)
termination_by stream.length

end ManagedDebugger.Wire
