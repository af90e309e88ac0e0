import ManagedDebugger.Target.Native
import ManagedDebugger.Text.Quoted
import ManagedDebugger.Type.Shown

/-!
Results of expressions, and how they are shown.
-/

namespace ManagedDebugger

inductive EvalValue where
  /-- A literal or a computed value; it has no copy in the target. -/
  | primitive (p : Primitive)
  | null
  | remote (value : RemoteValue)
  /-- The result of a method that returns nothing. -/
  | void
  deriving DecidableEq, Repr, Inhabited

/-- A value, and whether the expression designates a place that holds it. -/
structure Evaluated where
  value : EvalValue
  editable : Bool
  deriving DecidableEq, Repr, Inhabited

/-- The text that stands for a value. -/
def RemoteValue.display (v : RemoteValue) : Native String :=
  match v.kind with
  | .nullReference => return "null"
  | .primitive _ => do
    let p ← Native.call (.readPrimitive v)
    return p.display
  | .string => do
    let text ← Native.call (.readString v)
    return Text.quote text
  | .array => do
    let dims ← Native.call (.arrayDimensions v)
    return Type.shownArray v.typeName dims
  | .boxed => do
    let inner ← Native.call (.unbox v)
    if inner.kind.isPrimitive then do
      let p ← Native.call (.readPrimitive inner)
      return p.display
    else return Type.shownObject inner.typeName
  | .object => return Type.shownObject v.typeName

namespace EvalValue

def isNull : EvalValue → Bool
  | null => true
  | remote v => v.isNull
  | _ => false

def isVoid : EvalValue → Bool
  | void => true
  | _ => false

def isString : EvalValue → Bool
  | remote v => v.kind == .string
  | _ => false

def typeName : EvalValue → String
  | primitive p => p.type.keyword
  | null => "object"
  | void => "void"
  | remote v => Type.shown v.typeName

def display : EvalValue → Native String
  | primitive p => return p.display
  | null => return "null"
  | void => return "Expression has been evaluated and has no value"
  | remote v => v.display

end EvalValue

end ManagedDebugger
