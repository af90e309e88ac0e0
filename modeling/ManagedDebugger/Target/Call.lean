import ManagedDebugger.Error
import ManagedDebugger.Symbol.Data
import ManagedDebugger.Target.Description
import ManagedDebugger.Value.Primitive

/-!
The calls that the target answers, as data, and the type of each answer.

Inspection is meaningful only while the target is stopped. A begun evaluation is only queued: the
target runs it when it is continued, reports its completion under the id that it handed out, and is
stopped again by then.
-/

namespace ManagedDebugger

structure LaunchRequest where
  program : String
  args : List String
  cwd : Option String
  env : List (String × String)
  deriving DecidableEq, Repr, Inhabited

/-- How far a stepper goes. -/
inductive StepMode where
  /-- Until the instruction pointer leaves `[start, stop)`. -/
  | range (into : Bool) (start stop : UInt32)
  | instruction (into : Bool)
  | out
  deriving DecidableEq, Repr, Inhabited

inductive NativeCall where
  | launch (request : LaunchRequest)
  | attach (pid : UInt32)
  | detach
  | terminate
  | continueProcess
  | stopProcess
  | createBreakpoint (method : MethodRef) (offset : UInt32)
  | setBreakpointActive (breakpoint : NativeBreakpointId) (active : Bool)
  | step (thread : ThreadId) (mode : StepMode)
  | cancelStep (thread : ThreadId)
  | threads
  | frames (thread : ThreadId)
  | arguments (thread : ThreadId) (depth : UInt32)
  | locals (thread : ThreadId) (depth : UInt32)
  | methodInfo (method : MethodRef)
  | moduleSymbols (module : ModuleId)
  | readPrimitive (value : RemoteValue)
  | readString (value : RemoteValue)
  | unbox (value : RemoteValue)
  | objectAddress (value : RemoteValue)
  | typeOf (value : RemoteValue)
  | typeInfo (type : TypeRef)
  | findType (module : ModuleId) (name : String)
  | arrayDimensions (array : RemoteValue)
  | arrayElement (array : RemoteValue) (indices : List UInt32)
  | fieldValue (object : RemoteValue) (field : FieldInfo)
  | staticFieldValue (thread : ThreadId) (type : TypeRef) (field : FieldInfo)
  | createPrimitive (thread : ThreadId) (value : Primitive)
  | createNull (thread : ThreadId)
  | beginCall (thread : ThreadId) (method : MethodRef) (typeArguments : List TypeRef)
      (arguments : List RemoteValue)
  | beginString (thread : ThreadId) (text : String)
  | abortEval (eval : EvalId)
  /-- Keeps a value across resumes until its handle is released. -/
  | createHandle (value : RemoteValue)
  | releaseHandle (handle : RemoteValue)
  deriving DecidableEq, Repr, Inhabited

/-- What a call answers when it does not fail. -/
abbrev NativeCall.Answer : NativeCall → Type
  | launch _ => UInt32
  | createBreakpoint .. => NativeBreakpointId
  | threads => List NativeThread
  | frames _ => List NativeFrame
  | arguments .. => List NamedValue
  | locals .. => List LocalValue
  | methodInfo _ => MethodInfo
  | moduleSymbols _ => Option ModuleSymbols
  | readPrimitive _ => Primitive
  | readString _ => String
  | objectAddress _ => UInt64
  | typeOf _ => TypeRef
  | typeInfo _ => TypeInfo
  | findType .. => Option TypeRef
  | arrayDimensions _ => List UInt32
  | unbox _ | arrayElement .. | fieldValue .. | staticFieldValue .. | createPrimitive ..
  | createNull _ | createHandle _ => RemoteValue
  | beginCall .. | beginString .. => EvalId
  | attach _ | detach | terminate | continueProcess | stopProcess | setBreakpointActive .. | step ..
  | cancelStep _ | abortEval _ | releaseHandle _ => Unit

end ManagedDebugger
