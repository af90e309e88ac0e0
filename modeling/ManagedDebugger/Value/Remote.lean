import ManagedDebugger.Value.Element

/-!
References into the target: threads, modules, methods, types and values living in its memory.
-/

namespace ManagedDebugger

abbrev ThreadId := UInt32

abbrev ModuleId := UInt64

/-- Metadata tokens are scoped to their module. -/
abbrev Token := UInt32

structure MethodRef where
  module : ModuleId
  token : Token
  deriving DecidableEq, Repr, Inhabited

/-- A type by its full metadata name: nested types are joined by `+`, arrays end in brackets. -/
structure TypeRef where
  module : ModuleId
  token : Token
  name : String
  deriving DecidableEq, Repr, Inhabited

/-- What comes before the last occurrence of `c`, if there is one. -/
def beforeLast? (c : Char) (s : List Char) : Option (List Char) :=
  match s.reverse.dropWhile (· != c) with
  | [] => none
  | _ :: rest => some rest.reverse

/-- The namespace of the outermost enclosing type. -/
def TypeRef.namespace (t : TypeRef) : String :=
  let outer := t.name.toList.takeWhile (· != '+')
  String.ofList ((beforeLast? '.' outer).getD [])

structure NativeBreakpointId where
  number : UInt32
  deriving DecidableEq, Repr, Inhabited

/-- One evaluation in the target: a call or the construction of a string. -/
structure EvalId where
  number : UInt64
  deriving DecidableEq, Repr, Inhabited

def EvalId.text (e : EvalId) : String := "eval#" ++ toString e.number.toNat

structure ValueId where
  number : UInt64
  deriving DecidableEq, Repr, Inhabited

inductive ValueKind where
  | primitive (type : ElementType)
  | string
  | object
  | array
  | boxed
  | nullReference
  deriving DecidableEq, Repr, Inhabited

def ValueKind.isPrimitive : ValueKind → Bool
  | .primitive _ => true
  | _ => false

/-- A value in the target, good while the target stays stopped unless a strong handle keeps it. -/
structure RemoteValue where
  id : ValueId
  kind : ValueKind
  typeName : String
  deriving DecidableEq, Repr, Inhabited

def RemoteValue.isNull (v : RemoteValue) : Bool := v.kind == .nullReference

end ManagedDebugger
