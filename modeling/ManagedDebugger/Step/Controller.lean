import ManagedDebugger.Step.Identity
import ManagedDebugger.Symbol.Table

/-!
Stepping, one step at a time.

A step runs over the sequence point it starts on. Where it ends at a place that is not for the user (the
beginning of a call, code that is not the user's, code without a source) it goes on.

A step across an `await` leaves the method at the yield point, and the method continues later, maybe on
another thread. So a breakpoint goes on the yield point, and once that is hit, on the point where the
method resumes. The identity of the invocation is kept meanwhile, for only the continuation of the same
invocation ends the step.
-/

namespace ManagedDebugger

inductive StepKind where
  | into | over | out
  deriving DecidableEq, Repr, Inhabited

/-- What becomes of the target after a step was told about a notification. -/
inductive StepOutcome where
  | stop (thread : ThreadId)
  | resume
  deriving DecidableEq, Repr, Inhabited

inductive StepState where
  | idle
  | stepping (thread : ThreadId) (kind : StepKind)
  /-- A step with a breakpoint on the point where its method would yield. -/
  | awaitingYield (thread : ThreadId) (kind : StepKind) (method : MethodRef)
      (breakpoint : NativeBreakpointId) (resumeOffset : UInt32)
  /-- The method has yielded; there is a breakpoint on the point where it resumes. -/
  | awaitingResume (thread : ThreadId) (kind : StepKind) (breakpoint : NativeBreakpointId)
      (identity : Option RemoteValue)
  deriving DecidableEq, Repr, Inhabited

/-- What stepping depends on. -/
structure StepContext where
  symbols : SymbolTable
  justMyCode : Bool
  /-- Milliseconds for a remote call. -/
  limit : Option Nat

/-- Programs that work on the step in flight; what they did to it stays done when they fail. -/
abbrev Stepping := ExceptT EngineError (StateT StepState (Program evalEffect))

namespace Stepping

def ofNative {α : Type} (p : Native α) : Stepping α :=
  ExceptT.mk (StateT.lift ((Except.mapError EngineError.native) <$> p.run.evaluating))

/-- The outcome of an evaluation, as a value. -/
def tryEval {α : Type} (p : Eval α) : Stepping (Except EvalError α) :=
  ExceptT.lift (StateT.lift p.run)

def call (c : NativeCall) : Stepping c.Answer := ofNative (Native.call c)

/-- Makes a call and goes on whether or not it fails. -/
def tryCall (c : NativeCall) : Stepping (Except NativeError c.Answer) :=
  ExceptT.lift (StateT.lift (Native.call c).run.evaluating)

end Stepping

namespace StepState

def thread? : StepState → Option ThreadId
  | idle => none
  | stepping thread _ | awaitingYield thread .. | awaitingResume thread .. => some thread

end StepState

namespace Step

open Stepping

def deactivate (b : NativeBreakpointId) : Stepping Unit := do
  let _ ← tryCall (.setBreakpointActive b false)

def release (v : RemoteValue) : Stepping Unit := do
  let _ ← tryCall (.releaseHandle v)

/-- Drops the step: its breakpoint goes, and what it kept is let go. -/
def finish : Stepping Unit := do
  let before ← getModify fun _ => .idle
  match before with
  | .awaitingYield _ _ _ b _ => deactivate b
  | .awaitingResume _ _ b identity => do
    deactivate b
    identity.forM release
  | .idle | .stepping .. => pure ()

/-- Starts a native step and remembers it as a plain one. -/
def issue (thread : ThreadId) (kind : StepKind) (mode : StepMode) : Stepping Unit := do
  call (.step thread mode)
  set (StepState.stepping thread kind)

/-- The mode of a first step in a range of code; without one it goes instruction by instruction. -/
def firstMode (into : Bool) : Option (UInt32 × UInt32) → StepMode
  | some (start, stop) => .range into start stop
  | none => .instruction into

/-- The first await whose yield point lies in the range. -/
def awaitIn (info : AsyncInfo) (start stop : UInt32) : Option AwaitBlock :=
  info.awaits.find? fun a => start ≤ a.yieldOffset && a.yieldOffset < stop

/-- The range of code that a step from an offset runs over: the sequence point, else the method. -/
def stepRange (symbols : SymbolTable) (method : MethodRef) (offset : UInt32) :
    Option (UInt32 × UInt32) :=
  symbols.range? method offset <|> (symbols.codeSize? method).map fun size => (0, size)

/-- Steps over or into the code at an offset. -/
def startAt (ctx : StepContext) (thread : ThreadId) (kind : StepKind) (method : MethodRef)
    (offset : UInt32) : Stepping Unit :=
  let into := kind == .into
  let range := stepRange ctx.symbols method offset
  let plain := issue thread kind (firstMode into range)
  match ctx.symbols.asyncInfo? method, range with
  | some info, range =>
    if info.lastUserCodeOffset ≤ offset then issue thread .out .out
    else match range.bind fun (start, stop) => awaitIn info start stop, range with
      | some block, some (start, stop) => do
        let b ← call (.createBreakpoint method block.yieldOffset)
        call (.step thread (.range into start stop))
        set (StepState.awaitingYield thread kind method b block.resumeOffset)
      | _, _ => plain
  | none, _ => plain

def start (ctx : StepContext) (thread : ThreadId) (kind : StepKind) : Stepping Unit := do
  match (← get).thread? with
  | some active => throw (.stepInProgress active)
  | none => do
    let frames ← call (.frames thread)
    match topMethod? frames with
    | none => issue thread .out .out
    | some (method, offset) =>
      if kind = .out then issue thread .out .out else startAt ctx thread kind method offset

/-- Steps on from wherever the thread is. Without a sequence point a step into code goes instruction by
instruction, and a step over code leaves the method. -/
def again (ctx : StepContext) (thread : ThreadId) (kind : StepKind) (into : Bool) :
    Stepping StepOutcome := do
  let frames ← call (.frames thread)
  let range := (topMethod? frames).bind fun (m, offset) => ctx.symbols.range? m offset
  let mode := match range with
    | some (start, stop) => .range into start stop
    | none => if into then .instruction into else .out
  issue thread kind mode
  return .resume

/-- Whether the landing place is one to go on from, and if so, whether into calls. -/
def continuation (ctx : StepContext) (landing : Option (MethodRef × UInt32))
    (location : Option SourceLocation) (reason : StepReason) : Stepping (Option Bool) := do
  match landing with
  | some (method, _) =>
    if reason = .call && location.isNone && ctx.symbols.hasPoints method then return some false
    else if ctx.justMyCode then do
      let info ← call (.methodInfo method)
      if info.nonUserCode then return some true
      else return if location.isNone then some false else none
    else return if location.isNone then some false else none
  | none => return some false

/-- A native step ended on a thread. -/
def onStepComplete (ctx : StepContext) (thread : ThreadId) (reason : StepReason) :
    Stepping StepOutcome := do
  let go (kind : StepKind) : Stepping StepOutcome := do
    let frames ← call (.frames thread)
    let landing := topMethod? frames
    let location := landing.bind fun (m, offset) => ctx.symbols.location? m offset
    match ← continuation ctx landing location reason with
    | some into => again ctx thread kind into
    | none => do
      finish
      return .stop thread
  match ← get with
  | .stepping t kind => if t = thread then go kind else return .stop thread
  | .awaitingYield t kind _ b _ =>
    if t = thread then do
      deactivate b
      set (StepState.stepping thread kind)
      go kind
    else return .stop thread
  | _ => return .stop thread

/-- Reads the identity of an invocation; if it cannot be read there is none. -/
def identity? (ctx : StepContext) (thread : ThreadId) : Stepping (Option RemoteValue) := do
  match ← tryEval (fetchIdentity ctx.limit thread) with
  | .ok id => return id
  | .error _ => return none

/-- Keeps the identity across resumes. -/
def pinIdentity (ctx : StepContext) (thread : ThreadId) : Stepping (Option RemoteValue) := do
  match ← identity? ctx thread with
  | none => return none
  | some id =>
    match ← tryCall (.createHandle id) with
    | .ok handle => return some handle
    | .error _ => return none

/-- The yield point is hit: wait for the method to resume. -/
def onYield (ctx : StepContext) (thread : ThreadId) (kind : StepKind) (method : MethodRef)
    (b : NativeBreakpointId) (resumeOffset : UInt32) : Stepping StepOutcome := do
  call (.cancelStep thread)
  deactivate b
  let identity ← pinIdentity ctx thread
  match ← tryCall (.createBreakpoint method resumeOffset) with
  | .ok resume => do
    set (StepState.awaitingResume thread kind resume identity)
    return .resume
  | .error e => do
    identity.forM release
    throw (.native e)

/-- Whether a thread runs the invocation with the given identity. -/
def sameInvocation (ctx : StepContext) (thread : ThreadId) (identity : RemoteValue) :
    Stepping Bool := do
  let expected ← call (.objectAddress identity)
  match ← identity? ctx thread with
  | none => return false
  | some current => do
    let address ← call (.objectAddress current)
    return address == expected

/-- Whether a hit of the resume point on a thread is the one that is waited for. -/
def isContinuation (ctx : StepContext) (thread origin : ThreadId) :
    Option RemoteValue → Stepping Bool
  | none => return true
  | some identity => if origin = thread then return true else sameInvocation ctx thread identity

/-- The method resumed: the step is over, unless the place has no source. -/
def onResume (ctx : StepContext) (thread : ThreadId) (kind : StepKind) : Stepping StepOutcome := do
  finish
  let frames ← call (.frames thread)
  let location := (topMethod? frames).bind fun (m, offset) => ctx.symbols.location? m offset
  match location with
  | some _ => return .stop thread
  | none => again ctx thread kind false

/-- A breakpoint was hit. There is no outcome if it is none of the step's own. -/
def onBreakpoint (ctx : StepContext) (thread : ThreadId) (hit : NativeBreakpointId) :
    Stepping (Option StepOutcome) := do
  match ← get with
  | .awaitingYield origin kind method b resumeOffset =>
    if b ≠ hit then return none
    else if origin ≠ thread then return some .resume
    else do
      let outcome ← onYield ctx thread kind method b resumeOffset
      return some outcome
  | .awaitingResume origin kind b identity =>
    if b ≠ hit then return none
    else if ← isContinuation ctx thread origin identity then do
      let outcome ← onResume ctx thread kind
      return some outcome
    else return some .resume
  | _ => return none

/-- Gives up the step in flight, if there is one. -/
def cancel : Stepping Unit := do
  match ← get with
  | .idle => pure ()
  | .stepping thread _ | .awaitingYield thread .. => do
    let _ ← tryCall (.cancelStep thread)
    finish
  | .awaitingResume .. => finish

/-- Lets go of what a step keeps in the target, when nobody will go on with it. -/
def drop : Stepping Unit := do
  let before ← getModify fun _ => .idle
  match before with
  | .awaitingResume _ _ _ (some identity) => release identity
  | _ => pure ()

end Step

end ManagedDebugger
