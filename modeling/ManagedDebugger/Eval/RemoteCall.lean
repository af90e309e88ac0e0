import ManagedDebugger.Eval.Effect

/-!
Remote calls: an evaluation is queued in the target, the target is resumed, and the caller waits for
the end of that very evaluation.
-/

namespace ManagedDebugger.RemoteCall

/-- A call that fails after it was queued is not waited for any more, and one that takes too long is
aborted as well. -/
def run (limit : Option Nat) (thread : ThreadId) (start : Native EvalId) :
    Eval (Option RemoteValue) := do
  let eval ← start
  let ticket ← Eval.register eval thread
  match ← (Native.call .continueProcess).attempt with
  | .error e => do
    Eval.cancel eval
    throw (.native e)
  | .ok () =>
    match ← Eval.wait ticket limit with
    | some (.outcome (.completed result)) => return result
    | some (.outcome (.threw exception)) => throw (.remoteFault exception)
    | some .closed => throw (.native (.evalAborted eval))
    | none => do
      Eval.cancel eval
      let _ ← (Native.call (.abortEval eval)).attempt
      throw .timeout

def call (limit : Option Nat) (thread : ThreadId) (method : MethodRef)
    (typeArguments : List TypeRef) (arguments : List RemoteValue) : Eval (Option RemoteValue) :=
  run limit thread (Native.call (.beginCall thread method typeArguments arguments))

def newString (limit : Option Nat) (thread : ThreadId) (text : String) : Eval RemoteValue := do
  match ← run limit thread (Native.call (.beginString thread text)) with
  | some value => return value
  | none => throw (.native (.protocol "string construction returned no value"))

end ManagedDebugger.RemoteCall
