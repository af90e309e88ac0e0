import ManagedDebugger.Breakpoint.Registry
import ManagedDebugger.Json.Record
import ManagedDebugger.Session.Config

/-!
Settings, launch requests and breakpoint requests as the front end writes them.
-/

namespace ManagedDebugger

open Json

namespace ExceptionBreaks

def name : ExceptionBreaks → String
  | never => "never"
  | unhandled => "unhandled"
  | always => "always"

def read? (style : EmptyStyle) (j : Json) : Option ExceptionBreaks := do
  let given ← j.name? style
  [never, unhandled, always].find? fun mode => mode.name == given

end ExceptionBreaks

def SessionConfig.reader (style : EmptyStyle) : RecordReader SessionConfig := do
  let standard : SessionConfig := {}
  let justMyCode ← fieldOr "justMyCode" standard.justMyCode bool?
  let stopAtEntry ← fieldOr "stopAtEntry" standard.stopAtEntry bool?
  let exceptionBreaks ←
    fieldOr "exceptionBreaks" standard.exceptionBreaks (ExceptionBreaks.read? style)
  let evalTimeout ← optionalField "evalTimeoutMs" u64?
  let evaluateProperties ← fieldOr "evaluateProperties" standard.evaluateProperties bool?
  let maxArrayChildren ← fieldOr "maxArrayChildren" standard.maxArrayChildren u64?
  return ⟨justMyCode, stopAtEntry, exceptionBreaks, evalTimeout, evaluateProperties,
    maxArrayChildren⟩

def SessionConfig.read? : Json → Option SessionConfig := record? (reader .nullOnly)

/-- Settings among the parameters of a request. -/
def SessionConfig.readParam? : Json → Option SessionConfig := record? (reader .nullOrObject)

def SessionConfig.json (c : SessionConfig) : Json :=
  .obj [
    ("justMyCode", .bool c.justMyCode),
    ("stopAtEntry", .bool c.stopAtEntry),
    ("exceptionBreaks", .str c.exceptionBreaks.name),
    ("evalTimeoutMs", ofOption .nat c.evalTimeout),
    ("evaluateProperties", .bool c.evaluateProperties),
    ("maxArrayChildren", .nat c.maxArrayChildren)]

def BreakpointRequest.reader : RecordReader BreakpointRequest := do
  let line ← field "line" u32?
  let condition ← optionalField "condition" str?
  let hitCondition ← optionalField "hitCondition" str?
  return ⟨line, condition, hitCondition⟩

def BreakpointRequest.read? : Json → Option BreakpointRequest := record? reader

def BreakpointRequest.json (r : BreakpointRequest) : Json :=
  .obj [
    ("line", .nat r.line.toNat),
    ("condition", ofOption .str r.condition),
    ("hitCondition", ofOption .str r.hitCondition)]

def LaunchRequest.reader : RecordReader LaunchRequest := do
  let program ← field "program" str?
  let args ← fieldOr "args" [] (list? str?)
  let cwd ← optionalField "cwd" str?
  let env ← fieldOr "env" [] (list? (pair? str? str?))
  return ⟨program, args, cwd, env⟩

def LaunchRequest.read? : Json → Option LaunchRequest := record? reader

def LaunchRequest.json (r : LaunchRequest) : Json :=
  .obj [
    ("program", .str r.program),
    ("args", strings r.args),
    ("cwd", ofOption .str r.cwd),
    ("env", ofList (fun (key, value) => strings [key, value]) r.env)]

end ManagedDebugger
