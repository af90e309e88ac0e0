import ManagedDebugger.Value.Remote

/-!
What the target tells about its threads, frames, modules, types and methods.
-/

namespace ManagedDebugger

structure ModuleInfo where
  id : ModuleId
  name : String
  path : String
  deriving DecidableEq, Repr, Inhabited

structure NativeThread where
  id : ThreadId
  name : Option String
  deriving DecidableEq, Repr, Inhabited

inductive FrameKind where
  | managed | native | runtime
  deriving DecidableEq, Repr, Inhabited

structure NativeFrame where
  kind : FrameKind
  method : Option MethodRef
  offset : UInt32
  deriving DecidableEq, Repr, Inhabited

structure NamedValue where
  name : String
  value : RemoteValue
  deriving DecidableEq, Repr, Inhabited

structure LocalValue where
  slot : UInt32
  value : RemoteValue
  deriving DecidableEq, Repr, Inhabited

structure Parameter where
  name : String
  typeName : String
  deriving DecidableEq, Repr, Inhabited

structure MethodInfo where
  method : MethodRef
  name : String
  declaringType : TypeRef
  isStatic : Bool
  parameters : List Parameter
  genericArity : UInt32
  returnType : String
  /-- Marked as code that the user does not want to step through. -/
  nonUserCode : Bool
  deriving DecidableEq, Repr, Inhabited

structure FieldInfo where
  token : Token
  name : String
  typeName : String
  isStatic : Bool
  deriving DecidableEq, Repr, Inhabited

structure PropertyInfo where
  name : String
  typeName : String
  getter : Option MethodRef
  isStatic : Bool
  deriving DecidableEq, Repr, Inhabited

structure TypeInfo where
  type : TypeRef
  base : Option TypeRef
  isValueType : Bool
  fields : List FieldInfo
  properties : List PropertyInfo
  methods : List MethodInfo
  deriving DecidableEq, Repr, Inhabited

/-- The method and offset of the innermost frame, if it runs managed code. -/
def topMethod? (frames : List NativeFrame) : Option (MethodRef × UInt32) :=
  frames.head?.bind fun f => f.method.map (·, f.offset)

end ManagedDebugger
