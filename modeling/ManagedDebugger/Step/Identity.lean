import ManagedDebugger.Eval.RemoteCall

/-!
The identity of an asynchronous invocation: an object that the runtime makes for debuggers, reached
from the state machine of the method through its builder.
-/

namespace ManagedDebugger.Step

def builderField : String := "<>t__builder"

def identityProperty : String := "ObjectIdForDebugger"

/-- The first thing that a type, its base and so on have. A search has no limit of its own, so it is
followed for `n` types. -/
def findInBases {α : Type} (pick : TypeInfo → Option α) : Nat → Option TypeRef → Native (Option α)
  | 0, _ => return none
  | _, none => return none
  | n + 1, some type => do
    let info ← Native.call (.typeInfo type)
    match pick info with
    | some a => return some a
    | none => findInBases pick n info.base

def builderOf (t : TypeInfo) : Option FieldInfo :=
  t.fields.find? fun f => f.name == builderField

def identityGetter (t : TypeInfo) : Option MethodRef :=
  (t.properties.find? fun p => p.name == identityProperty).bind (·.getter)

/-- Reads the builder out of the receiver of the innermost frame. -/
def fetchBuilder (far : Nat) (thread : ThreadId) : Native (Option RemoteValue) := do
  let arguments ← Native.call (.arguments thread 0)
  match arguments.find? fun a => a.name == "this" with
  | none => return none
  | some this => do
    let type ← Native.call (.typeOf this.value)
    match ← findInBases builderOf far (some type) with
    | none => return none
    | some field => do
      let builder ← Native.call (.fieldValue this.value field)
      return some builder

/-- The identity of the invocation in the innermost frame, unless it is null, with searches that are
followed for `far` types. -/
def searchIdentity (far : Nat) (limit : Option Nat) (thread : ThreadId) :
    Eval (Option RemoteValue) := do
  match ← Eval.ofNative (fetchBuilder far thread) with
  | none => return none
  | some builder => do
    let type ← Eval.native (.typeOf builder)
    match ← Eval.ofNative (findInBases identityGetter far (some type)) with
    | none => return none
    | some getter => do
      let id ← RemoteCall.call limit thread getter [] [builder]
      return id.filter fun v => !v.isNull

/-- The searches as far as the controller follows them: for more types than a module can number. -/
def fetchIdentity (limit : Option Nat) (thread : ThreadId) : Eval (Option RemoteValue) :=
  searchIdentity UInt32.size limit thread

end ManagedDebugger.Step
