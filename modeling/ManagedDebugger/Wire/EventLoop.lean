import ManagedDebugger.Wire.Connection

/-!
The parties of a connection. Whoever has a command for the agent queues it; a loop writes the
commands one at a time and looks at the packets that a reader hands over. The loop ends when the
reader has stopped and all its packets were looked at. Commands that wait to be written then have
come too late.
-/

namespace ManagedDebugger.Wire

/-- So many commands can wait to be written. -/
def commandQueue : Nat := 32

/-- A connection is open for as long as its loop runs. -/
structure EventLoop where
  connection : Connection
  /-- Commands that are to be written, the oldest first. -/
  commands : List Packet
  /-- Packets that were read and have not been looked at, the oldest first. -/
  packets : List Packet
  isReading : Bool
  deriving Repr

/-- How the queue receives a command. If it is full, the sender waits for room, or gives up if the
reply is of no interest to it. -/
inductive Admission where
  | queued | full | closed
  deriving DecidableEq, Repr

namespace EventLoop

def start : EventLoop := ⟨.start [], [], [], true⟩

def submit (l : EventLoop) (command : Packet) : EventLoop × Admission :=
  if l.connection.isOpen = false then (l, .closed)
  else if l.commands.length < commandQueue then
    ({ l with commands := l.commands ++ [command] }, .queued)
  else (l, .full)

/-- Writes the oldest command. -/
def write? (l : EventLoop) (takes : Bool) :
    Option (Packet × Except NativeError Packet × EventLoop) :=
  match l.commands with
  | [] => none
  | command :: others =>
    let (c, result) := l.connection.post command takes
    some (command, result, { l with connection := c, commands := others })

/-- The reader hands over the packets that are complete, and stops at one that cannot be read. -/
def read (l : EventLoop) (bytes : Bytes) : EventLoop :=
  let (packets, rest, readable) := packetsOf (l.connection.buffer ++ bytes)
  { l with
    connection.buffer := rest
    packets := l.packets ++ packets
    isReading := readable }

/-- The end of the stream. -/
def stop (l : EventLoop) : EventLoop := { l with isReading := false }

/-- Looks at the oldest packet. -/
def take? (l : EventLoop) : Option (Packet × List Delivery × EventLoop) :=
  match l.packets with
  | [] => none
  | p :: others =>
    let (c, deliveries) := l.connection.accept p
    some (p, deliveries, { l with connection := c, packets := others })

/-- No more packets can come: whoever waits for the loop learns that it ends. -/
def finish (l : EventLoop) : EventLoop × List Delivery :=
  let (c, lost) := l.connection.finish
  (⟨c, [], [], false⟩, lost ++ l.commands.map (.lost ·.id))

end EventLoop

end ManagedDebugger.Wire
