import ManagedDebugger.Server.Request
import ManagedDebugger.Session.Json

/-!
Answers to the front end: results, and refusals with a code each.
-/

namespace ManagedDebugger

open Json

/-- Why a line is not answered by a result. -/
inductive Refusal where
  | notJson
  | notARequest
  | methodNotFound (method : String)
  | badParams
  | noSession
  | nothingToDisconnect
  | unreachable (agent : Endpoint)
  | engine (error : EngineError)
  deriving DecidableEq, Repr, Inhabited

namespace Refusal

def code : Refusal → Int
  | notJson => -32700
  | notARequest => -32600
  | methodNotFound _ => -32601
  | badParams => -32602
  | noSession | nothingToDisconnect => -32001
  | unreachable _ | engine _ => -32002

def message : Refusal → String
  | notJson => "Parse error"
  | notARequest => "Invalid request: a request has an id and a method"
  | methodNotFound method => "Method not found: " ++ method
  | badParams => "Invalid params: a parameter is missing or of another type"
  | noSession => "No active debug session. Use launch or attach first."
  | nothingToDisconnect => "No active debug session"
  | unreachable agent =>
    "Failed to connect to debug agent at " ++ agent.host ++ ":" ++ toString agent.port.toNat ++
      ": no connection"
  | engine error => error.message

def json (r : Refusal) : Json := .obj [("code", .int r.code), ("message", .str r.message)]

end Refusal

/-- What a message asks for. -/
def Message.request (m : Message) : Except Refusal Request :=
  match Request.reader? m.method with
  | none => .error (.methodNotFound m.method)
  | some read =>
    match read (m.params.getD (.obj [])) with
    | none => .error .badParams
    | some request => .ok request

/-- An answer, under the id of its request. -/
structure Response where
  id : Json
  outcome : Except Refusal Json

def Response.json (r : Response) : Json :=
  match r.outcome with
  | .ok result => .obj [("id", r.id), ("result", result)]
  | .error refusal => .obj [("id", r.id), ("error", refusal.json)]

/-- Whom the front end talks to and what it may ask for. -/
def serverInfo : Json :=
  .obj [
    ("serverInfo", .obj [("name", .str "mdbg"), ("version", .str "0.1.0")]),
    ("capabilities", .obj [
      ("supportsConfigurationDoneRequest", .bool true),
      ("supportsConditionalBreakpoints", .bool true),
      ("supportsHitConditionalBreakpoints", .bool true),
      ("supportsTerminateRequest", .bool true)])]

/-- Nothing to tell but that it is done. -/
def doneJson : Json := .obj []

def pidJson (pid : UInt32) : Json := .obj [("pid", jsonU32 pid)]

/-- The work that a session does for a request. -/
def SessionRequest.work : SessionRequest → SessionWork Json
  | configurationDone => do
    Session.configurationDone
    return doneJson
  | setBreakpoints source breakpoints => do
    let infos ← Work.ofJob (Session.setBreakpoints source breakpoints)
    return .obj [("breakpoints", ofList BreakpointInfo.json infos)]
  | continue_ => do
    Session.continue_
    return doneJson
  | pause => do
    Session.pause
    return doneJson
  | step kind thread => do
    Session.step thread kind
    return doneJson
  | threads => do
    let threads ← Session.threads
    return .obj [("threads", ofList ThreadInfo.json threads)]
  | stackTrace thread start levels => do
    let frames ← Session.stackTrace thread start levels
    return .obj [("stackFrames", ofList StackFrame.json frames)]
  | scopes frame => do
    let scopes ← Session.scopes frame
    return .obj [("scopes", ofList VariableScope.json scopes)]
  | children reference start count => do
    let children ← Session.children reference start count
    return .obj [("variables", ofList Variable.json children)]
  | evaluate expression frame => do
    let result ← Session.evaluate expression frame
    return result.json
  | terminate => do
    Session.terminate
    return doneJson

end ManagedDebugger
