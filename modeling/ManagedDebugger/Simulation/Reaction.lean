import ManagedDebugger.Simulation.Script

/-!
How a scripted process answers calls, and what its methods do when it is resumed.
-/

namespace ManagedDebugger.Simulation.Script

open Json

def stepReason (name : String) : StepReason :=
  let all : List StepReason := [.normal, .returned, .call, .exception, .intercept, .exit]
  (all.find? (·.label == name)).getD .normal

def exceptionStage (name : String) : ExceptionStage :=
  let all : List ExceptionStage := [.firstChance, .userFirstChance, .catchHandlerFound, .unhandled]
  (all.find? (·.label == name)).getD .firstChance

/-- The notification of a description. Its values are made by `make`. -/
def eventWith {τ : Type} (make : Json → StateM τ RemoteValue) (j : Json) :
    StateM τ NativeEvent := do
  let thread := j.u32At "thread"
  let eval : EvalId := ⟨j.u64At "eval"⟩
  match j.strAt "e" with
  | "processCreated" => return .processCreated (j.u32At "pid")
  | "processExited" => return .processExited (Int32.ofInt (j.intAt "code"))
  | "threadCreated" => return .threadCreated thread
  | "threadExited" => return .threadExited thread
  | "moduleLoaded" => return .moduleLoaded ⟨j.u64At "module", j.strAt "name", j.strAt "path"⟩
  | "moduleUnloaded" => return .moduleUnloaded (j.u64At "module")
  | "breakpointHit" => return .breakpointHit thread ⟨j.u32At "bp"⟩
  | "stepComplete" => return .stepComplete thread (stepReason (j.strAt "reason"))
  | "break" => return .userBreak thread
  | "exception" =>
    return .exception thread (exceptionStage (j.strAt "stage")) (← make (j.get "value"))
  | "evalComplete" =>
    match j.get "value" with
    | .null => return .evalComplete thread eval none
    | spec => return .evalComplete thread eval (some (← make spec))
  | "evalException" => return .evalException thread eval (← make (j.get "value"))
  | _ => return .domainCreated

def event (j : Json) : Building NativeEvent := eventWith make j

/-- What a called method does: the notifications that it raises before its end, and the end. -/
def behave (thread : ThreadId) (eval : EvalId) (method : MethodRef)
    (arguments : List RemoteValue) : Nat → Json → Building (List NativeEvent)
  | 0, _ => return []
  | depth + 1, what => do
    let s ← get
    let text (t : String) : Building (List NativeEvent) := do
      let v ← onHeap (Heap.text t)
      return [.evalComplete thread eval (some v)]
    let described := arguments.map s.describe
    match what with
    | .str "echo" => text (s.signature method ++ "[" ++ ";".intercalate described ++ "]")
    | .str "hang" => return []
    | .str "typename" => text (((arguments[0]?).map (·.typeName)).getD "")
    | .str "same" =>
      let v ← onHeap (Heap.primitive (.bool (described[0]? == described[1]?)))
      return [.evalComplete thread eval (some v)]
    | _ =>
      match what.member? "ret", what.member? "throw", what.natAt? "arg", what.strAt? "field",
        what.itemsAt? "events" with
      | some spec, _, _, _, _ => return [.evalComplete thread eval (some (← make spec))]
      | _, some spec, _, _, _ => return [.evalException thread eval (← make spec)]
      | _, _, some i, _, _ => return [.evalComplete thread eval arguments[i]?]
      | _, _, _, some name, _ =>
        let found := (arguments[0]?).bind fun v => s.process.heap.field? v name
        return [.evalComplete thread eval found]
      | _, _, _, _, some events =>
        let events ← events.mapM event
        let rest ← behave thread eval method arguments depth (what.get "then")
        return events ++ rest
      | _, _, _, _, _ => return [.evalComplete thread eval none]

/-- Runs one queued evaluation. -/
def runBegun : EvalId × ThreadId × Begun → Building (List NativeEvent)
  | (eval, thread, .call method arguments) => do
    let what := (((← get).methods.get? method).map (·.2)).getD .null
    behave thread eval method arguments depthLimit what
  | (eval, thread, .text t) => do
    if ((← get).failing.member? "string_value").isSome then
      return [.evalComplete thread eval none]
    else
      let v ← onHeap (Heap.text t)
      return [.evalComplete thread eval (some v)]

/-- Runs all queued evaluations, in order. -/
def runAll : Building (List NativeEvent) := do
  let begun := (← get).begun
  modify fun s => { s with begun := [] }
  return (← begun.mapM runBegun).flatten

/-- The name under which a script makes a call fail. -/
def callName : NativeCall → String
  | .launch _ => "launch"
  | .attach _ => "attach"
  | .detach => "detach"
  | .terminate => "terminate"
  | .continueProcess => "continue_process"
  | .stopProcess => "stop_process"
  | .createBreakpoint .. => "create_breakpoint"
  | .setBreakpointActive .. => "set_breakpoint_active"
  | .step .. => "step"
  | .cancelStep _ => "cancel_step"
  | .threads => "threads"
  | .frames _ => "frames"
  | .arguments .. => "arguments"
  | .locals .. => "locals"
  | .methodInfo _ => "method_desc"
  | .moduleSymbols _ => "module_symbols"
  | .readPrimitive _ => "read_primitive"
  | .readString _ => "read_string"
  | .unbox _ => "unbox"
  | .objectAddress _ => "object_address"
  | .typeOf _ => "type_of"
  | .typeInfo _ => "type_info"
  | .findType .. => "find_type"
  | .arrayDimensions _ => "array_dimensions"
  | .arrayElement .. => "array_element"
  | .fieldValue .. => "field_value"
  | .staticFieldValue .. => "static_field_value"
  | .createPrimitive .. => "create_primitive"
  | .createNull _ => "create_null"
  | .beginCall .. => "begin_call"
  | .beginString .. => "begin_new_string"
  | .abortEval _ => "abort_eval"
  | .createHandle _ => "create_strong_handle"
  | .releaseHandle _ => "release_handle"

def launchLine (r : LaunchRequest) : String :=
  "launch " ++ r.program ++ " [" ++ ",".intercalate r.args ++ "] " ++ r.cwd.getD "-" ++ " [" ++
    ",".intercalate (r.env.map fun (key, value) => key ++ "=" ++ value) ++ "]"

def stepText : StepMode → String
  | .range into start stop =>
    "range " ++ toString start.toNat ++ ".." ++ toString stop.toNat ++ if into then " in" else ""
  | .instruction into => "instruction" ++ if into then " in" else ""
  | .out => "out"

/-- The line that a call leaves whether or not it fails. -/
def line? (s : Script) : NativeCall → Option String
  | .launch request => some (launchLine request)
  | .attach pid => some ("attach " ++ toString pid.toNat)
  | .detach => some "detach"
  | .terminate => some "terminate"
  | .continueProcess => some "continue"
  | .stopProcess => some "stop"
  | .setBreakpointActive b active =>
    some ("bp " ++ toString b.number.toNat ++ if active then " on" else " off")
  | .step thread mode => some ("step " ++ toString thread.toNat ++ " " ++ stepText mode)
  | .cancelStep thread => some ("cancel " ++ toString thread.toNat)
  | .createPrimitive _ p => some ("new " ++ p.tagged)
  | .createNull _ => some "new null"
  | .beginString thread text => some ("string @" ++ toString thread.toNat ++ " " ++ text)
  | .abortEval eval => some ("abort " ++ toString eval.number.toNat)
  | .createHandle v => some ("pin " ++ s.describe v)
  | .releaseHandle v => some ("unpin " ++ s.describe v)
  | _ => none

def callLine (s : Script) (thread : ThreadId) (method : MethodRef) (types : List TypeRef)
    (arguments : List RemoteValue) : String :=
  let types := if types.isEmpty then "" else "<" ++ ",".intercalate (types.map (·.name)) ++ ">"
  "call @" ++ toString thread.toNat ++ " " ++ s.signature method ++ types ++ " [" ++
    "; ".intercalate (arguments.map s.describe) ++ "]"

def onProcess {α : Type} (r : Reaction Process α) : Reaction Script α :=
  r.onProcess (·.process) fun s process => { s with process }

def begin (thread : ThreadId) (work : Begun) : Reaction Script EvalId := do
  let eval ← onProcess Process.nextEval
  modify fun s => { s with begun := s.begun ++ [(eval, thread, work)] }
  return eval

/-- A type with its methods as they are described now. -/
def typeInfo (s : Script) (t : ScriptType) : TypeInfo :=
  { t.info with methods := t.methods.filterMap fun m => (s.methods.get? m).map (·.1) }

def react : (call : NativeCall) → Reaction Script call.Answer
  | .launch _ => return 4242
  | .attach _ | .detach | .terminate | .continueProcess | .stopProcess | .setBreakpointActive ..
  | .step .. | .cancelStep _ | .releaseHandle _ => return ()
  | .createBreakpoint method offset => do
    let b ← onProcess Process.nextBreakpoint
    let s ← get
    ExceptT.lift (write ("bp " ++ toString b.number.toNat ++ " at " ++ s.signature method ++ "+" ++
      toString offset.toNat))
    return b
  | .methodInfo m => do
    let (info, _) ← orRefuse ("unknown method " ++ toString m.module.toNat ++ ":" ++
      toString m.token.toNat) ((← get).methods.get? m)
    return info
  | .objectAddress v => do
    let cell ← orRefuse "dangling value" ((← get).process.heap.cell? v)
    return cell.address
  | .typeOf v => return (← get).typeNamed v.typeName
  | .typeInfo type => do
    let s ← get
    match s.type? type.module type.name with
    | some t => return s.typeInfo t
    | none =>
      if type.name.endsWith "]" then
        return ⟨type, some (s.typeNamed "System.Array"), false, [], [], []⟩
      else refuse ("unknown type " ++ type.name)
  | .findType module name => return ((← get).type? module name).map (·.info.type)
  | .staticFieldValue _ type field => do
    orRefuse ("no static " ++ field.name)
      (((← get).type? type.module type.name).bind (·.statics.get? field.name))
  | .beginCall thread method types arguments => do
    let s ← get
    ExceptT.lift (write (s.callLine thread method types arguments))
    match (s.methods.get? method).bind fun m => m.2.strAt? "fail" with
    | some detail => refuse detail
    | none => begin thread (.call method arguments)
  | .beginString thread text => begin thread (.text text)
  | .abortEval eval => modify fun s => { s with begun := s.begun.filter (·.1 != eval) }
  | call => onProcess (Process.inspect call)

/-- The reply to a call, with the notifications that it raises. -/
def answer (call : NativeCall) (s : Script) : call.Reply × List NativeEvent × Script :=
  let s := match s.line? call with
    | some line => { s with log := line :: s.log }
    | none => s
  match s.failing.strAt? (callName call) with
  | some detail => (.error (.protocol detail), [], s)
  | none =>
    let (reply, s) := (react call).run s
    match call with
    | .continueProcess =>
      let (events, s) := runAll.run s
      (reply, events, s)
    | _ => (reply, [], s)

def backend : Backend Script := ⟨answer, false⟩

/-- Takes what was logged, the first line first. -/
def takeLog (s : Script) : List String × Script := (s.log.reverse, { s with log := [] })

end ManagedDebugger.Simulation.Script
