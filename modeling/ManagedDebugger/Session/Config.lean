/-!
Settings of a session.
-/

namespace ManagedDebugger

/-- The exceptions that stop the session. -/
inductive ExceptionBreaks where
  | never
  | unhandled
  /-- Those that nothing handles, and all that user code throws. -/
  | always
  deriving DecidableEq, Repr, Inhabited

structure SessionConfig where
  /-- Step on from code that is marked as not the user's. -/
  justMyCode : Bool := true
  stopAtEntry : Bool := false
  exceptionBreaks : ExceptionBreaks := .unhandled
  /-- Milliseconds that a remote call may take; without a limit it may take forever. -/
  evalTimeout : Option Nat := none
  /-- Call the getters of properties when an object is expanded. -/
  evaluateProperties : Bool := true
  maxArrayChildren : Nat := 1000
  deriving DecidableEq, Repr, Inhabited

end ManagedDebugger
