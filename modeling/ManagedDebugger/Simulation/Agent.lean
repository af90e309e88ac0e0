import ManagedDebugger.Server
import ManagedDebugger.Wire.Command
import ManagedDebugger.Wire.Notification

/-!
A simulated target at the other end of a connection: its answers and notifications arrive as payloads
and are read back from them. The agent gives no reasons for its refusals.
-/

namespace ManagedDebugger.Simulation

open Wire

/-- The code with which the agent refuses whatever its target refuses. -/
def refusalCode : UInt16 := 113

/-- What arrives of a call: on the wire, no working directory is an empty one. -/
def arriving : NativeCall → NativeCall
  | .launch request => .launch { request with cwd := request.cwd.filter (· ≠ "") }
  | call => call

def payloadOf (call : NativeCall) : call.Reply → UInt16 × Bytes
  | .ok a => (0, call.answerLayout.put a)
  | .error _ => (refusalCode, [])

def overWire {τ : Type} (b : Backend τ) : Backend τ where
  answer call t :=
    let (reply, events, t) := b.answer (arriving call) t
    let (code, payload) := payloadOf (arriving call) reply
    let arrived := (Layout.events? (Layout.events.put events)).toOption.getD []
    (call.answer code payload, arrived, t)
  isRemote := true

/-- The ways to name the host of the agent, which is the local one. -/
def localHosts : List String := ["127.0.0.1", "localhost", "0.0.0.0"]

/-- A network with one agent, listening at a port. -/
def agentNetwork {τ : Type} (b : Backend τ) (port : UInt16) (fuel : Nat) : Network τ where
  connect agent t := (agent.port == port && localHosts.contains agent.host, t)
  backend := overWire b
  fuel := fuel

end ManagedDebugger.Simulation
