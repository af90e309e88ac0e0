import ManagedDebugger.Target.Description

/-!
Notifications of the target.
-/

namespace ManagedDebugger

inductive StepReason where
  | normal | returned | call | exception | intercept | exit
  deriving DecidableEq, Repr, Inhabited

inductive ExceptionStage where
  | firstChance | userFirstChance | catchHandlerFound | unhandled
  deriving DecidableEq, Repr, Inhabited

inductive NativeEvent where
  | processCreated (pid : UInt32)
  | processExited (code : Int32)
  | domainCreated
  | threadCreated (thread : ThreadId)
  | threadExited (thread : ThreadId)
  | moduleLoaded (module : ModuleInfo)
  | moduleUnloaded (module : ModuleId)
  | breakpointHit (thread : ThreadId) (breakpoint : NativeBreakpointId)
  | stepComplete (thread : ThreadId) (reason : StepReason)
  /-- The program asked to be stopped. -/
  | userBreak (thread : ThreadId)
  | exception (thread : ThreadId) (stage : ExceptionStage) (value : RemoteValue)
  | evalComplete (thread : ThreadId) (eval : EvalId) (result : Option RemoteValue)
  | evalException (thread : ThreadId) (eval : EvalId) (value : RemoteValue)
  deriving DecidableEq, Repr, Inhabited

/-- The thread that raised a notification. -/
def NativeEvent.thread? : NativeEvent → Option ThreadId
  | threadCreated t | threadExited t | breakpointHit t _ | stepComplete t _ | userBreak t
  | exception t _ _ | evalComplete t _ _ | evalException t _ _ => some t
  | processCreated _ | processExited _ | domainCreated | moduleLoaded _ | moduleUnloaded _ => none

end ManagedDebugger
