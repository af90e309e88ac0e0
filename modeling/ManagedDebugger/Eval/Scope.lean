import ManagedDebugger.Eval.Effect
import ManagedDebugger.Eval.Value
import ManagedDebugger.Symbol.Table

/-!
Where an expression is evaluated: the frame, and the names in scope there.
-/

namespace ManagedDebugger

structure EvalContext where
  symbols : SymbolTable
  /-- The loaded modules, in the order in which types are looked up. -/
  modules : List ModuleId
  thread : ThreadId
  depth : UInt32
  /-- Milliseconds for a remote call. -/
  limit : Option Nat

/-- What the names of a frame stand for. A frame without managed code has no names. -/
structure FrameScope where
  method : Option MethodInfo
  this : Option RemoteValue
  arguments : List NamedValue
  locals : List NamedValue
  namespaces : List String
  deriving Repr, Inhabited

def FrameScope.empty : FrameScope := ⟨none, none, [], [], []⟩

/-- The method and offset of the frame at a depth. -/
def methodAt? (frames : List NativeFrame) (depth : UInt32) : Option (MethodRef × UInt32) :=
  frames[depth.toNat]?.bind fun f => f.method.map (·, f.offset)

/-- Gives the values of slots the names that are in scope. -/
def nameLocals (names : List LocalName) (values : List LocalValue) : List NamedValue :=
  names.filterMap fun l =>
    (values.find? fun v => v.slot == l.slot).map fun v => ⟨l.name, v.value⟩

/-- The receiver, which comes first, and the other arguments. -/
def splitThis (method : MethodInfo) : List NamedValue → Option RemoteValue × List NamedValue
  | [] => (none, [])
  | a :: rest =>
    if !method.isStatic && a.name == "this" then (some a.value, rest) else (none, a :: rest)

def FrameScope.load (ctx : EvalContext) : Native FrameScope := do
  let frames ← Native.call (.frames ctx.thread)
  match methodAt? frames ctx.depth with
  | none => return .empty
  | some (method, offset) => do
    let info ← Native.call (.methodInfo method)
    let arguments ← Native.call (.arguments ctx.thread ctx.depth)
    let values ← Native.call (.locals ctx.thread ctx.depth)
    let (this, arguments) := splitThis info arguments
    return {
      method := some info
      this, arguments
      locals := nameLocals (ctx.symbols.localNames method offset) values
      namespaces := ctx.symbols.importedNamespaces method }

/-- The value of a local or an argument; locals come first. -/
def FrameScope.variable? (scope : FrameScope) (name : String) : Option RemoteValue :=
  ((scope.locals ++ scope.arguments).find? fun v => v.name == name).map (·.value)

end ManagedDebugger
