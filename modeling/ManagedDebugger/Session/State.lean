import ManagedDebugger.Breakpoint.Registry
import ManagedDebugger.Eval.Interpreter
import ManagedDebugger.Session.Config
import ManagedDebugger.Session.Handles
import ManagedDebugger.Session.Work

/-!
The state that the tasks of a session share, what a session tells the front end, and the questions that
several of its tasks ask.
-/

namespace ManagedDebugger

inductive RunState where
  | notStarted
  | running
  | stopped (thread : ThreadId)
  | exited
  deriving DecidableEq, Repr, Inhabited

/-- There is a process to work on. -/
def RunState.isLive : RunState → Bool
  | running | stopped _ => true
  | notStarted | exited => false

structure ProcessState where
  pid : Option UInt32
  status : RunState
  modules : List ModuleInfo
  /-- The front end has sent its breakpoints. -/
  configured : Bool
  /-- The process waits at its creation until the front end has done that. -/
  heldAtCreate : Bool
  entryBreakpoint : Option NativeBreakpointId
  entryReached : Bool
  deriving Repr, Inhabited

structure SessionState where
  config : SessionConfig
  symbols : SymbolTable
  breakpoints : BreakpointRegistry
  handles : HandleTable
  step : StepState
  process : ProcessState

def SessionState.start (config : SessionConfig) : SessionState :=
  { config, symbols := .empty, breakpoints := .empty, handles := .empty, step := .idle
    process := ⟨none, .notStarted, [], false, false, none, false⟩ }

inductive StopReason where
  | breakpoint | step | exception | pause | entry
  deriving DecidableEq, Repr, Inhabited

/-- Why and where the target stopped, with the breakpoint of the user that stopped it. -/
structure Stop where
  thread : ThreadId
  reason : StopReason
  description : Option String
  breakpoint : Option UInt32
  deriving DecidableEq, Repr, Inhabited

inductive SessionEvent where
  | stopped (stop : Stop) (location : Option SourceLocation)
  | continued
  | exited (code : Int32)
  | terminated
  | threadStarted (thread : ThreadId)
  | threadExited (thread : ThreadId)
  | moduleLoaded (name path : String)
  | breakpointChanged (info : BreakpointInfo)
  deriving DecidableEq, Repr, Inhabited

/-- A task of a session. -/
abbrev SessionJob := Job SessionState SessionEvent

abbrev SessionWork := Work SessionState SessionEvent

namespace Session

def modifyProcess (f : ProcessState → ProcessState) : SessionJob Unit :=
  Job.modify fun s => { s with process := f s.process }

def setStatus (status : RunState) : SessionJob Unit :=
  modifyProcess fun p => { p with status }

/-- Changes the table of numbers and answers something about it. -/
def updateHandles {α : Type} (f : HandleTable → α × HandleTable) : SessionJob α :=
  Job.update fun s =>
    let (a, handles) := f s.handles
    (a, { s with handles })

def clearHandles : SessionJob Unit := updateHandles fun t => ((), t.clear)

/-- Works on the breakpoints while no other task does. -/
def onBreakpoints {α : Type}
    (p : SymbolTable → BreakpointRegistry → Program nativeEffect (α × BreakpointRegistry)) :
    SessionJob α :=
  Job.locked .breakpoints do
    let s ← Job.get
    let (a, breakpoints) ← (p s.symbols s.breakpoints).evaluating.working
    Job.modify fun s => { s with breakpoints }
    return a

def onStep {α : Type} (p : StepContext → Stepping α) : SessionJob (Except EngineError α) := do
  let s ← Job.get
  let ctx : StepContext := ⟨s.symbols, s.config.justMyCode, s.config.evalTimeout⟩
  Job.stepping (·.step) (fun step s => { s with step }) (p ctx)

def cancelStep : SessionJob Unit := do
  let _ ← onStep fun _ => Step.cancel

/-- Evaluates an expression in a frame, with the types of all loaded modules. -/
def evaluateAt (thread : ThreadId) (depth : UInt32) (text : String) :
    SessionJob (Except EvalError Evaluated) := do
  let s ← Job.get
  let ctx : EvalContext :=
    ⟨s.symbols, s.process.modules.map (·.id), thread, depth, s.config.evalTimeout⟩
  Job.eval (evaluate ctx text)

/-- The source of the innermost frame, if the frame can be read and has one. -/
def topLocation (thread : ThreadId) : SessionJob (Option SourceLocation) := do
  match ← Job.native (Native.call (.frames thread)) with
  | .error _ => return none
  | .ok frames => do
    let s ← Job.get
    return (topMethod? frames).bind fun (m, offset) => s.symbols.location? m offset

/-- Tells the front end that the target is stopped, and where. -/
def reportStop (stop : Stop) : SessionJob Unit := do
  setStatus (.stopped stop.thread)
  let location ← topLocation stop.thread
  Job.emit (.stopped stop location)

/-- The innermost frame runs code of the user that has symbols. -/
def inUserCode (thread : ThreadId) : SessionWork Bool := do
  let frames ← Work.native (.frames thread)
  match topMethod? frames with
  | none => return false
  | some (method, _) => do
    let s ← Work.ofJob Job.get
    if !s.symbols.hasPoints method then return false
    else if s.config.justMyCode then do
      let info ← Work.native (.methodInfo method)
      return !info.nonUserCode
    else return true

end Session

end ManagedDebugger
