import ManagedDebugger.Session.Dispatcher
import ManagedDebugger.Session.Variables

/-!
The requests of the front end.
-/

namespace ManagedDebugger

structure ThreadInfo where
  id : ThreadId
  name : String
  deriving DecidableEq, Repr, Inhabited

structure StackFrame where
  id : Int
  name : String
  location : Option SourceLocation
  deriving DecidableEq, Repr, Inhabited

structure EvaluateResult where
  result : String
  typeName : String
  reference : Int
  /-- The code threw, and the result is the exception. -/
  isException : Bool
  deriving DecidableEq, Repr, Inhabited

namespace Session

def processId : SessionJob (Option UInt32) := do
  return (← Job.get).process.pid

def started (pid : UInt32) : SessionJob Unit :=
  modifyProcess fun p => { p with pid := some pid, status := .running }

def launch (request : LaunchRequest) : SessionWork UInt32 := do
  let pid ← Work.native (.launch request)
  Work.ofJob (started pid)
  return pid

def attach (pid : UInt32) : SessionWork Unit := do
  Work.native (.attach pid)
  Work.ofJob (started pid)

/-- The front end has sent its breakpoints: a process that is held at its creation goes on. -/
def configurationDone : SessionWork Unit := do
  let held ← Work.ofJob (Job.update fun s =>
    (s.process.heldAtCreate,
      { s with process := { s.process with configured := true, heldAtCreate := false } }))
  if held then Work.native .continueProcess

def setBreakpoints (file : String) (requests : List BreakpointRequest) :
    SessionJob (List BreakpointInfo) := do
  let modules := (← Job.get).process.modules.map (·.id)
  onBreakpoints fun symbols r => r.setBreakpoints symbols modules file requests

def isLive : SessionJob Bool := do
  return (← Job.get).process.status.isLive

def requireProcess : SessionWork Unit := do
  if !(← Work.ofJob isLive) then throw .noProcess

/-- What was handed out for the stop is not good any more. -/
def resume : SessionWork Unit := do
  Work.ofJob clearHandles
  Work.ofJob (setStatus .running)
  Work.native .continueProcess
  Work.ofJob (Job.emit .continued)

def continue_ : SessionWork Unit := do
  requireProcess
  resume

def pause : SessionWork Unit := do
  requireProcess
  Work.native .stopProcess
  Work.ofJob cancelStep
  let threads ← Work.native .threads
  let thread := match threads with
    | t :: _ => t.id
    | [] => 0
  Work.ofJob (reportStop ⟨thread, .pause, none, none⟩)

def step (thread : ThreadId) (kind : StepKind) : SessionWork Unit := do
  requireProcess
  ExceptT.mk (onStep fun ctx => Step.start ctx thread kind)
  resume

/-- A thread without a name is called by its number. -/
def threadInfo (t : NativeThread) : ThreadInfo :=
  ⟨t.id, t.name.getD ("Thread #" ++ toString t.id.toNat)⟩

def threads : SessionWork (List ThreadInfo) := do
  let threads ← Work.native .threads
  return threads.map threadInfo

/-- The frames from `start` on, each with its depth; no more than `levels` unless that is zero. -/
def page {α : Type} (frames : List α) (start levels : Nat) : List (α × Nat) :=
  let stop := if levels = 0 then frames.length else start + levels
  (frames.zipIdx.take stop).drop start

/-- The name of a frame and its place in the source. -/
def describeFrame (f : NativeFrame) : SessionWork (String × Option SourceLocation) :=
  match f.method with
  | none => return ("[Native Frames]", none)
  | some method => do
    let info ← Work.native (.methodInfo method)
    let s ← Work.ofJob Job.get
    return (Type.shown info.declaringType.name ++ "." ++ info.name ++ "()",
      s.symbols.location? method f.offset)

def numberFrames (thread : ThreadId) :
    List (Nat × String × Option SourceLocation) → HandleTable → List StackFrame × HandleTable
  | [], t => ([], t)
  | (depth, name, location) :: rest, t =>
    let (id, t) := t.addFrame ⟨thread, depth.toUInt32⟩
    let (frames, t) := numberFrames thread rest t
    (⟨id, name, location⟩ :: frames, t)

def stackTrace (thread : ThreadId) (start levels : Nat) : SessionWork (List StackFrame) := do
  let frames ← Work.native (.frames thread)
  let described ← (page frames start levels).mapM fun (f, depth) => do
    let (name, location) ← describeFrame f
    return (depth, name, location)
  Work.ofJob (updateHandles (numberFrames thread described))

def frame (id : Int) : SessionWork FrameHandle := do
  match (← Work.ofJob Job.get).handles.frame? id with
  | some f => return f
  | none => throw (.invalidFrame id)

def scopes (frameId : Int) : SessionWork (List VariableScope) := do
  let f ← frame frameId
  Work.ofJob (updateHandles (frameScopes f))

/-- What a reference to variables stands for, expanded. -/
def children (reference : Int) (start count : Nat) : SessionWork (List Variable) := do
  let s ← Work.ofJob Job.get
  match s.handles.reference? reference with
  | none => throw (.invalidReference reference)
  | some r => do
    let pending ← Work.ofEval (expand s.symbols s.config r start count)
    Work.ofJob (updateHandles (PendingVariable.registerAll pending))

/-- The frame of an evaluation: the one asked for, else the innermost of the stopped thread. -/
def evaluationFrame : Option Int → SessionWork FrameHandle
  | some id => frame id
  | none => do
    match (← Work.ofJob Job.get).process.status with
    | .stopped thread => return ⟨thread, 0⟩
    | _ => throw .notStopped

/-- A thrown exception is a result as well. -/
def evaluated (r : Except EvalError Evaluated) : SessionWork (EvalValue × Bool) :=
  match r with
  | .ok e => return (e.value, false)
  | .error (.remoteFault exception) => return (.remote exception, true)
  | .error e => throw (.ofEval e)

def evaluate (expression : String) (frameId : Option Int) : SessionWork EvaluateResult := do
  let f ← evaluationFrame frameId
  let result ← Work.ofJob (evaluateAt f.thread f.depth expression)
  let (value, isException) ← evaluated result
  match value with
  | .remote v => do
    let pending ← Work.ofNative (describeValue expression v f.thread f.depth)
    let shown ← Work.ofJob (updateHandles pending.register)
    return ⟨shown.value, shown.typeName, shown.reference, isException⟩
  | other => do
    let text ← Work.ofNative other.display
    return ⟨text, other.typeName, 0, isException⟩

def terminate : SessionWork Unit := do
  requireProcess
  Work.ofJob cancelStep
  Work.native .terminate

/-- Ends the session: the process is killed or left running. Nothing can go wrong with that. -/
def disconnect (kill : Bool) : SessionJob Unit := do
  if ← isLive then
    cancelStep
    clearHandles
    let _ ← Job.native (Native.call (if kill then .terminate else .detach))

end Session

end ManagedDebugger
