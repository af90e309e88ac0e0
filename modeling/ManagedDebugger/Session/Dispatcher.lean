import ManagedDebugger.Session.State

/-!
Handling of notifications, one at a time and in the order of their arrival. Each one lets the target go
on, stops the session, or leaves the target as it is. A notification that cannot be handled lets the
target go on, so that no failure leaves it frozen.
-/

namespace ManagedDebugger

inductive Action where
  | resume
  | stop (stop : Stop)
  | hold
  deriving DecidableEq, Repr, Inhabited

namespace Session

def onProcessCreated (pid : UInt32) : SessionJob Action := do
  let configured ← Job.update fun s =>
    (s.process.configured,
      { s with process := { s.process with
          pid := some pid
          status := .running
          heldAtCreate := s.process.heldAtCreate || !s.process.configured } })
  return if configured then .resume else .hold

def onProcessExited (code : Int32) : SessionJob Action := do
  setStatus .exited
  clearHandles
  cancelStep
  Job.emit (.exited code)
  Job.emit .terminated
  return .hold

/-- Puts the breakpoint on the entry point, unless there is one or it was reached before. -/
def breakAtEntry (module : ModuleId) : SessionWork Unit := do
  let s ← Work.ofJob Job.get
  if s.config.stopAtEntry && s.process.entryBreakpoint.isNone && !s.process.entryReached then
    match s.symbols.entryPoint? module with
    | none => pure ()
    | some entry => do
      let b ← Work.native (.createBreakpoint entry 0)
      Work.ofJob (modifyProcess fun p => { p with entryBreakpoint := some b })

def reportChanged (changed : List BreakpointInfo) : SessionJob Unit :=
  changed.forM fun info => Job.emit (.breakpointChanged info)

def onModuleLoaded (module : ModuleInfo) : SessionWork Action := do
  match ← Work.native (.moduleSymbols module.id) with
  | some symbols =>
    Work.ofJob (Job.modify fun s => { s with symbols := s.symbols.add module.id symbols })
  | none => pure ()
  Work.ofJob (modifyProcess fun p => { p with modules := p.modules ++ [module] })
  let changed ← Work.ofJob (onBreakpoints fun symbols r => r.moduleLoaded symbols module.id)
  breakAtEntry module.id
  Work.ofJob (Job.emit (.moduleLoaded module.name module.path))
  Work.ofJob (reportChanged changed)
  return .resume

def onModuleUnloaded (module : ModuleId) : SessionJob Action := do
  modifyProcess fun p => { p with modules := p.modules.filter (·.id != module) }
  Job.modify fun s => { s with symbols := s.symbols.remove module }
  let changed ← onBreakpoints fun _ r => pure (r.moduleUnloaded module)
  reportChanged changed
  return .resume

def actionOf : StepOutcome → Action
  | .stop thread => .stop ⟨thread, .step, none, none⟩
  | .resume => .resume

/-- Whether the result of a condition is true, here or in the target. -/
def isTrue : EvalValue → SessionJob Bool
  | .primitive p => return p == .bool true
  | .remote v =>
    if v.kind.isPrimitive then do
      match ← Job.native (Native.call (.readPrimitive v)) with
      | .ok p => return p == .bool true
      | .error _ => return false
    else return false
  | _ => return false

/-- A condition that cannot be evaluated does not hold. -/
def holds (thread : ThreadId) : Option String → SessionJob Bool
  | none => return true
  | some condition => do
    match ← evaluateAt thread 0 condition with
    | .ok result => isTrue result.value
    | .error _ => return false

/-- A hit counts only if the condition holds; then the rule on the count decides. -/
def onUserBreakpoint (thread : ThreadId) (handle : NativeBreakpointId) : SessionJob Action := do
  match ← onBreakpoints fun _ r => pure (r.byHandle? handle, r) with
  | none => return .resume
  | some b => do
    if ← holds thread b.condition then
      if ← onBreakpoints fun _ r => pure (r.recordHit b.id) then do
        cancelStep
        return .stop ⟨thread, .breakpoint, none, some b.id⟩
      else return .resume
    else return .resume

/-- Takes the hit breakpoint if it is the one on the entry point. -/
def takeEntryBreakpoint (hit : NativeBreakpointId) : SessionJob Bool :=
  Job.update fun s =>
    if s.process.entryBreakpoint = some hit then
      (true, { s with process := { s.process with entryBreakpoint := none, entryReached := true } })
    else (false, s)

/-- The breakpoint may be the one on the entry point, one of the step in flight, or the user's. -/
def onBreakpointHit (thread : ThreadId) (hit : NativeBreakpointId) : SessionWork Action := do
  if ← Work.ofJob (takeEntryBreakpoint hit) then
    Work.native (.setBreakpointActive hit false)
    return .stop ⟨thread, .entry, none, none⟩
  else
    match ← ExceptT.mk (onStep fun ctx => Step.onBreakpoint ctx thread hit) with
    | some outcome => return actionOf outcome
    | none => Work.ofJob (onUserBreakpoint thread hit)

def onStepComplete (thread : ThreadId) (reason : StepReason) : SessionWork Action := do
  let outcome ← ExceptT.mk (onStep fun ctx => Step.onStepComplete ctx thread reason)
  return actionOf outcome

def onUserBreak (thread : ThreadId) : SessionJob Action := do
  cancelStep
  return .stop ⟨thread, .pause, some "Paused on Debugger.Break()", none⟩

/-- The settings choose between no exceptions, those that nothing handles, and also those that user
code throws. -/
def stopsAt (mode : ExceptionBreaks) (stage : ExceptionStage) (thread : ThreadId) :
    SessionWork Bool :=
  match mode, stage with
  | .never, _ => return false
  | _, .unhandled => return true
  | .always, .firstChance | .always, .userFirstChance => inUserCode thread
  | _, _ => return false

def exceptionText (stage : ExceptionStage) (exception : RemoteValue) : String :=
  let lead := if stage = .unhandled then "Unhandled exception: '" else "Exception thrown: '"
  lead ++ exception.typeName ++ "'"

def onException (thread : ThreadId) (stage : ExceptionStage) (exception : RemoteValue) :
    SessionWork Action := do
  let s ← Work.ofJob Job.get
  if ← stopsAt s.config.exceptionBreaks stage thread then
    Work.ofJob cancelStep
    return .stop ⟨thread, .exception, some (exceptionText stage exception), none⟩
  else return .resume

def decide : NativeEvent → SessionWork Action
  | .processCreated pid => Work.ofJob (onProcessCreated pid)
  | .processExited code => Work.ofJob (onProcessExited code)
  | .domainCreated => return .resume
  | .threadCreated thread => Work.ofJob do
    Job.emit (.threadStarted thread)
    return .resume
  | .threadExited thread => Work.ofJob do
    Job.emit (.threadExited thread)
    return .resume
  | .moduleLoaded module => onModuleLoaded module
  | .moduleUnloaded module => Work.ofJob (onModuleUnloaded module)
  | .breakpointHit thread b => onBreakpointHit thread b
  | .stepComplete thread reason => onStepComplete thread reason
  | .userBreak thread => Work.ofJob (onUserBreak thread)
  | .exception thread stage v => onException thread stage v
  | .evalComplete .. | .evalException .. => return .hold

def apply : Action → SessionJob Unit
  | .resume => do
    let _ ← Job.native (Native.call .continueProcess)
  | .stop stop => reportStop stop
  | .hold => pure ()

/-- The whole handling of a notification. -/
def handle (event : NativeEvent) : SessionJob Unit := do
  match ← (decide event).run with
  | .ok action => apply action
  | .error _ => apply .resume

end Session

end ManagedDebugger
