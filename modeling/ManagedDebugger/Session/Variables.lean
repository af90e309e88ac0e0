import ManagedDebugger.Eval.Members
import ManagedDebugger.Eval.Scope
import ManagedDebugger.Session.Config
import ManagedDebugger.Session.Handles

/-!
What can be expanded, and its children. The target is asked first, and only then are numbers handed
out.
-/

namespace ManagedDebugger

structure VariableScope where
  name : String
  reference : Int
  expensive : Bool
  deriving DecidableEq, Repr, Inhabited

structure Variable where
  name : String
  value : String
  typeName : String
  /-- Zero if there are no children. -/
  reference : Int
  evaluateName : Option String
  deriving DecidableEq, Repr, Inhabited

/-- A variable before it gets a number. -/
structure PendingVariable where
  name : String
  value : String
  typeName : String
  evaluateName : Option String
  expand : Option VariablesReference
  deriving DecidableEq, Repr, Inhabited

def PendingVariable.register (p : PendingVariable) (t : HandleTable) : Variable × HandleTable :=
  let (reference, t) := match p.expand with
    | some r => t.addReference r
    | none => (0, t)
  (⟨p.name, p.value, p.typeName, reference, p.evaluateName⟩, t)

def PendingVariable.registerAll :
    List PendingVariable → HandleTable → List Variable × HandleTable
  | [], t => ([], t)
  | p :: rest, t =>
    let (v, t) := p.register t
    let (vs, t) := registerAll rest t
    (v :: vs, t)

inductive ChildValue where
  | value (v : RemoteValue)
  /-- A getter that threw, or that could not be called. -/
  | failed (text typeName : String)
  | statics (type : TypeRef)
  deriving DecidableEq, Repr, Inhabited

structure Child where
  name : String
  value : ChildValue
  evaluateName : Option String
  deriving DecidableEq, Repr, Inhabited

/-- What the expansion of variables depends on. -/
structure ExpandContext where
  symbols : SymbolTable
  config : SessionConfig
  thread : ThreadId
  depth : UInt32

/-- Objects and arrays can be expanded, and boxes of anything but primitives. -/
def RemoteValue.isExpandable (v : RemoteValue) : Native Bool :=
  match v.kind with
  | .object | .array => return true
  | .boxed => do
    let inner ← Native.call (.unbox v)
    return !inner.kind.isPrimitive
  | _ => return false

namespace Child

def ofNamed (v : NamedValue) : Child := ⟨v.name, .value v.value, some v.name⟩

def describe (thread : ThreadId) (depth : UInt32) (c : Child) : Native PendingVariable :=
  match c.value with
  | .value v => do
    let text ← v.display
    let expandable ← v.isExpandable
    let reference : VariablesReference := ⟨.value v, thread, depth, c.evaluateName.getD ""⟩
    return ⟨c.name, text, Type.shown v.typeName, c.evaluateName,
      if expandable then some reference else none⟩
  | .failed text typeName => return ⟨c.name, text, typeName, c.evaluateName, none⟩
  | .statics type => return ⟨c.name, "", "", c.evaluateName, some ⟨.statics type, thread, depth, ""⟩⟩

end Child

/-- A value under the expression that it came from. -/
def describeValue (name : String) (v : RemoteValue) (thread : ThreadId) (depth : UInt32) :
    Native PendingVariable :=
  Child.describe thread depth ⟨name, .value v, some name⟩

/-- The one scope of a frame. -/
def frameScopes (f : FrameHandle) (t : HandleTable) : List VariableScope × HandleTable :=
  let (reference, t) := t.addReference ⟨.frame, f.thread, f.depth, ""⟩
  ([⟨"Locals", reference, false⟩], t)

namespace ExpandContext

variable (ctx : ExpandContext)

/-- Arguments, then the locals in scope. -/
def frameChildren : Native (List Child) := do
  let frames ← Native.call (.frames ctx.thread)
  match methodAt? frames ctx.depth with
  | none => return []
  | some (method, offset) => do
    let arguments ← Native.call (.arguments ctx.thread ctx.depth)
    let values ← Native.call (.locals ctx.thread ctx.depth)
    let locals := nameLocals (ctx.symbols.localNames method offset) values
    return (arguments ++ locals).map Child.ofNamed

/-- The name of a member under the name of its owner; without the one there is not the other. -/
def memberName (parent name : String) : Option String :=
  if parent.isEmpty then none else some (parent ++ "." ++ name)

/-- The indices, last dimension first, of the element at a position in row-major order. -/
def indicesFromLast : Nat → List UInt32 → List UInt32
  | _, [] => []
  | n, d :: dims =>
    let size := max d.toNat 1
    (n % size).toUInt32 :: indicesFromLast (n / size) dims

def unflatten (n : Nat) (dims : List UInt32) : List UInt32 :=
  (indicesFromLast n dims.reverse).reverse

/-- The number of elements, in 64 bits. -/
def elementCount (dims : List UInt32) : Nat :=
  (dims.foldl (fun (n : UInt64) d => n * d.toUInt64) 1).toNat

/-- The end of a page of elements; no page is longer than the limit, and a count of zero asks for as
many as there may be. -/
def pageEnd (limit total start count : Nat) : Nat :=
  let count := if count = 0 then limit else min count limit
  min total (start + count)

def elementChild (array : RemoteValue) (parent : String) (dims : List UInt32) (n : Nat) :
    Native Child := do
  let indices := unflatten n dims
  let label := "[" ++ ", ".intercalate (indices.map fun i => toString i.toNat) ++ "]"
  let v ← Native.call (.arrayElement array indices)
  return ⟨label, .value v, if parent.isEmpty then none else some (parent ++ label)⟩

def arrayChildren (array : RemoteValue) (parent : String) (start count : Nat) :
    Native (List Child) := do
  let dims ← Native.call (.arrayDimensions array)
  let stop := pageEnd ctx.config.maxArrayChildren (elementCount dims) start count
  (List.range' start (stop - start)).mapM (elementChild array parent dims)

/-- What a getter returns; a getter that fails shows why. -/
def getterChild (name typeName : String) (getter : MethodRef) (receiver : Option RemoteValue)
    (evaluateName : Option String) : Eval Child := do
  let shown := Type.shown typeName
  let result ← ExceptT.lift (Eval.attempt
    (RemoteCall.call ctx.config.evalTimeout ctx.thread getter [] receiver.toList))
  let value : ChildValue := match result with
    | .ok (some v) => .value v
    | .ok none => .failed "null" shown
    | .error (.remoteFault e) => .failed (Type.shownObject e.typeName) shown
    | .error e => .failed ("<error: " ++ e.message ++ ">") shown
  return ⟨name, value, evaluateName⟩

/-- Storage that the compiler made up. -/
def isHiddenField (f : FieldInfo) : Bool := f.name.startsWith "<"

/-- The instance fields whose names no earlier member has. -/
def fieldChildren (object : RemoteValue) (parent : String) (seen : List String) :
    List FieldInfo → Eval (List Child × List String)
  | [] => return ([], seen)
  | f :: rest =>
    if f.isStatic || isHiddenField f || seen.contains f.name then
      fieldChildren object parent seen rest
    else do
      let v ← Eval.native (.fieldValue object f)
      let (children, seen) ← fieldChildren object parent (f.name :: seen) rest
      return (⟨f.name, .value v, memberName parent f.name⟩ :: children, seen)

/-- The instance properties with a getter whose names no earlier member has. -/
def propertyChildren (object : RemoteValue) (parent : String) (seen : List String) :
    List PropertyInfo → Eval (List Child × List String)
  | [] => return ([], seen)
  | p :: rest =>
    match p.getter with
    | none => propertyChildren object parent seen rest
    | some getter =>
      if p.isStatic || seen.contains p.name then propertyChildren object parent seen rest
      else do
        let child ← ctx.getterChild p.name p.typeName getter (some object)
          (memberName parent p.name)
        let (children, seen) ← propertyChildren object parent (p.name :: seen) rest
        return (child :: children, seen)

def hasStatics (t : TypeInfo) : Bool :=
  t.fields.any (·.isStatic) || t.properties.any (·.isStatic)

/-- The node under which the static members of the type are. -/
def staticsNode (t : TypeInfo) : List Child :=
  if hasStatics t then [⟨"Static members", .statics t.type, none⟩] else []

/-- The types above which nothing is listed. -/
def isRoot (t : TypeRef) : Bool := t.name == "System.Object" || t.name == "System.ValueType"

/-- The members of a type, then those of its bases, for at most `n` types. -/
def membersFrom (object : RemoteValue) (parent : String) (first : Bool) (seen : List String) :
    Nat → Option TypeRef → Eval (List Child)
  | 0, _ => return []
  | _, none => return []
  | n + 1, some type =>
    if isRoot type then return []
    else do
      let info ← Eval.native (.typeInfo type)
      let (fields, seen) ← fieldChildren object parent seen info.fields
      let (properties, seen) ←
        if ctx.config.evaluateProperties then
          ctx.propertyChildren object parent seen info.properties
        else pure ([], seen)
      let statics := if first then staticsNode info else []
      let inherited ← membersFrom object parent false seen n info.base
      return fields ++ properties ++ statics ++ inherited

def objectChildren (object : RemoteValue) (parent : String) : Eval (List Child) := do
  let type ← Eval.native (.typeOf object)
  ctx.membersFrom object parent true [] maxTypeDepth (some type)

def staticFieldChildren (type : TypeRef) (owner : String) (fields : List FieldInfo) :
    Native (List Child) :=
  (fields.filter fun f => f.isStatic && !isHiddenField f).mapM fun f => do
    let v ← Native.call (.staticFieldValue ctx.thread type f)
    return ⟨f.name, .value v, memberName owner f.name⟩

def staticPropertyChildren (owner : String) : List PropertyInfo → Eval (List Child)
  | [] => return []
  | p :: rest =>
    match p.isStatic, p.getter with
    | true, some getter => do
      let child ← ctx.getterChild p.name p.typeName getter none (memberName owner p.name)
      let children ← staticPropertyChildren owner rest
      return child :: children
    | _, _ => staticPropertyChildren owner rest

def staticChildren (type : TypeRef) : Eval (List Child) := do
  let info ← Eval.native (.typeInfo type)
  let owner := Type.shown type.name
  let fields ← Eval.ofNative (ctx.staticFieldChildren type owner info.fields)
  let properties ←
    if ctx.config.evaluateProperties then ctx.staticPropertyChildren owner info.properties
    else pure []
  return fields ++ properties

def valueChildren (v : RemoteValue) (parent : String) (start count : Nat) : Eval (List Child) :=
  match v.kind with
  | .array => Eval.ofNative (ctx.arrayChildren v parent start count)
  | .boxed => do
    let inner ← Eval.native (.unbox v)
    if inner.kind.isPrimitive then return [] else ctx.objectChildren inner parent
  | .object => ctx.objectChildren v parent
  | _ => return []

/-- The children of what can be expanded; `start` and `count` choose among the elements of arrays. -/
def children (target : Expandable) (parent : String) (start count : Nat) : Eval (List Child) :=
  match target with
  | .frame => Eval.ofNative ctx.frameChildren
  | .statics type => ctx.staticChildren type
  | .value v => ctx.valueChildren v parent start count

end ExpandContext

/-- Describes the children of a reference. -/
def expand (symbols : SymbolTable) (config : SessionConfig) (r : VariablesReference)
    (start count : Nat) : Eval (List PendingVariable) := do
  let ctx : ExpandContext := ⟨symbols, config, r.thread, r.depth⟩
  let children ← ctx.children r.target r.evaluateName start count
  Eval.ofNative (children.mapM (Child.describe r.thread r.depth))

end ManagedDebugger
