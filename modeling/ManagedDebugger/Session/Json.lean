import ManagedDebugger.Json.Value
import ManagedDebugger.Session.Requests

/-!
JSON forms of what a session answers and tells.
-/

namespace ManagedDebugger

open Json

/-- A member that is left out if there is nothing to say. -/
def Json.memberIf {α : Type} (name : String) (f : α → Json) : Option α → List (String × Json)
  | some a => [(name, f a)]
  | none => []

def jsonU32 (n : UInt32) : Json := .nat n.toNat

def BreakpointInfo.json (b : BreakpointInfo) : Json :=
  .obj ([
    ("id", jsonU32 b.id),
    ("verified", .bool b.verified),
    ("source", .str b.source),
    ("line", jsonU32 b.line)] ++
    memberIf "endLine" jsonU32 b.endLine ++
    memberIf "message" .str b.message)

def ThreadInfo.json (t : ThreadInfo) : Json :=
  .obj [("id", jsonU32 t.id), ("name", .str t.name)]

/-- Lines and columns of a frame without a source are zero. -/
def StackFrame.json (f : StackFrame) : Json :=
  .obj [
    ("id", .int f.id),
    ("name", .str f.name),
    ("file", ofOption (fun l => .str l.file) f.location),
    ("line", jsonU32 ((f.location.map (·.line)).getD 0)),
    ("column", jsonU32 ((f.location.map (·.column)).getD 0)),
    ("endLine", ofOption (fun l => jsonU32 l.endLine) f.location),
    ("endColumn", ofOption (fun l => jsonU32 l.endColumn) f.location)]

def VariableScope.json (s : VariableScope) : Json :=
  .obj [
    ("name", .str s.name),
    ("variablesReference", .int s.reference),
    ("expensive", .bool s.expensive)]

def Variable.json (v : Variable) : Json :=
  .obj ([
    ("name", .str v.name),
    ("value", .str v.value),
    ("type", .str v.typeName),
    ("variablesReference", .int v.reference)] ++
    memberIf "evaluateName" .str v.evaluateName)

def EvaluateResult.json (r : EvaluateResult) : Json :=
  .obj [
    ("result", .str r.result),
    ("type", .str r.typeName),
    ("variablesReference", .int r.reference),
    ("isException", .bool r.isException)]

def StopReason.name : StopReason → String
  | .breakpoint => "breakpoint"
  | .step => "step"
  | .exception => "exception"
  | .pause => "pause"
  | .entry => "entry"

def SessionEvent.json : SessionEvent → Json
  | .stopped stop location =>
    .obj [
      ("event", .str "stopped"),
      ("thread", jsonU32 stop.thread),
      ("reason", .str stop.reason.name),
      ("file", ofOption (fun l => .str l.file) location),
      ("line", ofOption (fun l => jsonU32 l.line) location),
      ("description", ofOption .str stop.description),
      ("breakpoint", ofOption jsonU32 stop.breakpoint)]
  | .continued => .obj [("event", .str "continued")]
  | .exited code => .obj [("event", .str "exited"), ("exitCode", .int code.toInt)]
  | .terminated => .obj [("event", .str "terminated")]
  | .threadStarted thread => .obj [("event", .str "threadStarted"), ("thread", jsonU32 thread)]
  | .threadExited thread => .obj [("event", .str "threadExited"), ("thread", jsonU32 thread)]
  | .moduleLoaded name path =>
    .obj [("event", .str "moduleLoaded"), ("name", .str name), ("path", .str path)]
  | .breakpointChanged info =>
    .obj [("event", .str "breakpointChanged"), ("breakpoint", info.json)]

end ManagedDebugger
