import ManagedDebugger.Server.Settings
import ManagedDebugger.Session.Requests

/-!
Requests of the front end: a message names a method and gives parameters, and each method reads its
own. Absent parameters are an empty record. The methods without parameters do not look at them.
-/

namespace ManagedDebugger

open Json

/-- Where the debug agent of a target listens. -/
structure Endpoint where
  host : String
  port : UInt16
  deriving DecidableEq, Repr, Inhabited

/-- What a session is asked for once there is one. -/
inductive SessionRequest where
  | configurationDone
  | setBreakpoints (source : String) (breakpoints : List BreakpointRequest)
  | continue_
  | pause
  | step (kind : StepKind) (thread : ThreadId)
  | threads
  | stackTrace (thread : ThreadId) (start levels : Nat)
  | scopes (frame : Int)
  | children (reference : Int) (start count : Nat)
  | evaluate (expression : String) (frame : Option Int)
  | terminate
  deriving DecidableEq, Repr, Inhabited

inductive Request where
  | capabilities
  | launch (agent : Endpoint) (config : SessionConfig) (request : LaunchRequest)
  | attach (agent : Endpoint) (config : SessionConfig) (pid : UInt32)
  | disconnect (kill : Bool)
  | session (request : SessionRequest)
  deriving DecidableEq, Repr, Inhabited

/-- A line of the front end. The answer carries the same id. -/
structure Message where
  id : Json
  method : String
  params : Option Json

def Message.read? : Json → Option Message := record? do
  let id ← field "id" some
  let method ← field "method" str?
  let params ← optionalField "params" some
  return ⟨id, method, params⟩

namespace Request

def agentFields : RecordReader (Endpoint × SessionConfig) := do
  let host ← fieldOr "host" "127.0.0.1" str?
  let port ← fieldOr "port" 4711 u16?
  let config ← fieldOr "config" {} SessionConfig.readParam?
  return (⟨host, port⟩, config)

def launch? : Json → Option Request := namedRecord? do
  let (agent, config) ← agentFields
  let request ← LaunchRequest.reader
  return launch agent config request

def attach? : Json → Option Request := namedRecord? do
  let (agent, config) ← agentFields
  let pid ← field "pid" u32?
  return attach agent config pid

def disconnect? : Json → Option Request := record? do
  let kill ← fieldOr "terminateDebuggee" false bool?
  return disconnect kill

def step? (kind : StepKind) : Json → Option Request := record? do
  let thread ← field "thread" u32?
  return session (.step kind thread)

def setBreakpoints? : Json → Option Request := record? do
  let source ← field "source" str?
  let breakpoints ← fieldOr "breakpoints" [] (list? BreakpointRequest.read?)
  return session (.setBreakpoints source breakpoints)

def stackTrace? : Json → Option Request := record? do
  let thread ← field "thread" u32?
  let start ← fieldOr "startFrame" 0 u64?
  let levels ← fieldOr "levels" 0 u64?
  return session (.stackTrace thread start levels)

def scopes? : Json → Option Request := record? do
  let frame ← field "frameId" i64?
  return session (.scopes frame)

def variables? : Json → Option Request := record? do
  let reference ← field "variablesReference" i64?
  let start ← fieldOr "start" 0 u64?
  let count ← fieldOr "count" 0 u64?
  return session (.children reference start count)

def evaluate? : Json → Option Request := record? do
  let expression ← field "expression" str?
  let frame ← optionalField "frameId" i64?
  return session (.evaluate expression frame)

/-- How a method reads its parameters. -/
def reader? (method : String) : Option (Json → Option Request) :=
  match method with
  | "initialize" => some fun _ => some capabilities
  | "launch" => some launch?
  | "attach" => some attach?
  | "configurationDone" => some fun _ => some (session .configurationDone)
  | "setBreakpoints" => some setBreakpoints?
  | "continue" => some fun _ => some (session .continue_)
  | "pause" => some fun _ => some (session .pause)
  | "next" => some (step? .over)
  | "stepIn" => some (step? .into)
  | "stepOut" => some (step? .out)
  | "threads" => some fun _ => some (session .threads)
  | "stackTrace" => some stackTrace?
  | "scopes" => some scopes?
  | "variables" => some variables?
  | "evaluate" => some evaluate?
  | "terminate" => some fun _ => some (session .terminate)
  | "disconnect" => some disconnect?
  | _ => none

end Request

end ManagedDebugger
