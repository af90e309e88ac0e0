import ManagedDebugger.Eval.RemoteCall
import ManagedDebugger.Eval.Value
import ManagedDebugger.Value.Arithmetic

/-!
Members of types and of their bases. Every walk looks at no more than `maxTypeDepth` types, for the
target may report a type that is its own base.
-/

namespace ManagedDebugger

def maxTypeDepth : Nat := 64

/-- Asks about the type, its base and so on until there is an answer, for at most `n` types. -/
def searchBases {α : Type} (visit : TypeInfo → Eval (Option α)) :
    Nat → Option TypeRef → Eval (Option α)
  | 0, _ => return none
  | _, none => return none
  | n + 1, some type => do
    let info ← Eval.native (.typeInfo type)
    match ← visit info with
    | some a => return some a
    | none => searchBases visit n info.base

/-- A field or a property that can be read. -/
inductive Member where
  | field (f : FieldInfo)
  | getter (method : MethodRef)
  deriving DecidableEq, Repr, Inhabited

/-- The member of a name that a type itself declares. Fields come before properties. -/
def TypeInfo.member? (t : TypeInfo) (isStatic : Bool) (name : String) : Option Member :=
  match t.fields.find? fun f => f.isStatic == isStatic && f.name == name with
  | some f => some (.field f)
  | none =>
    ((t.properties.find? fun p => p.isStatic == isStatic && p.name == name).bind
      (·.getter)).map .getter

/-- What a getter returns; nothing counts as null. -/
def callGetter (limit : Option Nat) (thread : ThreadId) (getter : MethodRef)
    (receiver : Option RemoteValue) : Eval RemoteValue := do
  match ← RemoteCall.call limit thread getter [] receiver.toList with
  | some value => return value
  | none => Eval.native (.createNull thread)

/-- An instance member of an object. The flag says that the member is a place. -/
def instanceMember (limit : Option Nat) (thread : ThreadId) (object : RemoteValue)
    (name : String) : Eval (Option (RemoteValue × Bool)) := do
  let type ← Eval.native (.typeOf object)
  let visit (info : TypeInfo) : Eval (Option (RemoteValue × Bool)) :=
    match info.member? false name with
    | some (.field f) => do
      let value ← Eval.native (.fieldValue object f)
      return some (value, true)
    | some (.getter m) => do
      let value ← callGetter limit thread m (some object)
      return some (value, false)
    | none => return none
  searchBases visit maxTypeDepth (some type)

def staticMember (limit : Option Nat) (thread : ThreadId) (type : TypeRef) (name : String) :
    Eval (Option (RemoteValue × Bool)) :=
  let visit (info : TypeInfo) : Eval (Option (RemoteValue × Bool)) :=
    match info.member? true name with
    | some (.field f) => do
      let value ← Eval.native (.staticFieldValue thread info.type f)
      return some (value, true)
    | some (.getter m) => do
      let value ← callGetter limit thread m none
      return some (value, false)
    | none => return none
  searchBases visit maxTypeDepth (some type)

/-- Whether one of at most `n` types, the type and its bases, has a name. -/
def derivesFromIn (name : String) : Nat → Option TypeRef → Eval Bool
  | 0, _ => return false
  | _, none => return false
  | n + 1, some type =>
    if type.name = name then return true
    else if n = 0 then return false
    else do
      let info ← Eval.native (.typeInfo type)
      derivesFromIn name n info.base

def derivesFrom (value : RemoteValue) (name : String) : Eval Bool := do
  let type ← Eval.native (.typeOf value)
  derivesFromIn name maxTypeDepth (some type)

/-- A primitive goes to parameters of its own or a wider type, and boxed to the roots of all types. -/
def primitiveFits (type : ElementType) (parameter : String) : Bool :=
  match ElementType.ofRuntimeName? parameter with
  | some wanted => type.widensTo wanted
  | none => parameter == "System.Object" || parameter == "System.ValueType"

/-- Whether an argument can be passed for a parameter of the named type. -/
def isCompatible (parameter : String) : EvalValue → Eval Bool
  | .primitive p => return primitiveFits p.type parameter
  | .null => return (ElementType.ofRuntimeName? parameter).isNone
  | .void => return false
  | .remote v =>
    match v.kind with
    | .primitive type => return primitiveFits type parameter
    | .nullReference => return (ElementType.ofRuntimeName? parameter).isNone
    | _ =>
      if parameter = "System.Object" ∨ parameter = v.typeName then return true
      else derivesFrom v parameter

/-- Whether each argument can be passed for its parameter; the first that cannot ends the check. -/
def allCompatible : List EvalValue → List Parameter → Eval Bool
  | a :: arguments, p :: parameters => do
    if ← isCompatible p.typeName a then allCompatible arguments parameters else return false
  | _, _ => return true

/-- What is asked for in a method. -/
structure MethodQuery where
  name : String
  arguments : List EvalValue
  genericArity : UInt32
  isStatic : Bool
  deriving Repr

inductive MethodLookup where
  | found (method : MethodInfo)
  /-- There are methods of the name, but none for the arguments. -/
  | wrongArguments
  | missing
  deriving Repr, Inhabited

def MethodQuery.named (q : MethodQuery) (m : MethodInfo) : Bool :=
  m.name == q.name && m.isStatic == q.isStatic

def MethodQuery.shaped (q : MethodQuery) (m : MethodInfo) : Bool :=
  m.parameters.length == q.arguments.length && m.genericArity == q.genericArity

/-- The first method that takes the arguments. -/
def firstMatch (q : MethodQuery) : List MethodInfo → Eval (Option MethodInfo)
  | [] => return none
  | m :: rest =>
    if q.named m && q.shaped m then do
      if ← allCompatible q.arguments m.parameters then return some m else firstMatch q rest
    else firstMatch q rest

/-- Looks through at most `n` types; `seen` says that a method of the name came before. -/
def findMethodIn (q : MethodQuery) (seen : Bool) : Nat → Option TypeRef → Eval MethodLookup
  | n + 1, some type => do
    let info ← Eval.native (.typeInfo type)
    match ← firstMatch q info.methods with
    | some m => return .found m
    | none => findMethodIn q (seen || info.methods.any q.named) n info.base
  | _, _ => return if seen then .wrongArguments else .missing

/-- The first method of the type and its bases that takes the arguments. -/
def findMethod (q : MethodQuery) (type : TypeRef) : Eval MethodLookup :=
  findMethodIn q false maxTypeDepth (some type)

/-- The value in the target that is passed for a parameter of the named type. -/
def materialize (thread : ThreadId) (parameter : String) : EvalValue → Eval RemoteValue
  | .primitive p =>
    let fitted := ((ElementType.ofRuntimeName? parameter).bind p.convert?).getD p
    Eval.native (.createPrimitive thread fitted)
  | .null => Eval.native (.createNull thread)
  | .void => throw .voidNotValue
  | .remote v =>
    match v.kind, ElementType.ofRuntimeName? parameter with
    | .primitive type, some wanted =>
      if type = wanted then return v
      else do
        let p ← Eval.native (.readPrimitive v)
        Eval.native (.createPrimitive thread ((p.convert? wanted).getD p))
    | _, _ => return v

def materializeAll (thread : ThreadId) :
    List EvalValue → List Parameter → Eval (List RemoteValue)
  | a :: arguments, p :: parameters => do
    let v ← materialize thread p.typeName a
    let vs ← materializeAll thread arguments parameters
    return v :: vs
  | _, _ => return []

def callMethod (limit : Option Nat) (thread : ThreadId) (method : MethodInfo)
    (receiver : Option RemoteValue) (arguments : List EvalValue)
    (typeArguments : List TypeRef) : Eval EvalValue := do
  let values ← materializeAll thread arguments method.parameters
  match ← RemoteCall.call limit thread method.method typeArguments
      (receiver.toList ++ values) with
  | some value => return .remote value
  | none => return .void

/-- Brings primitives, boxed or not, and nulls over from the target. -/
def localize : EvalValue → Eval EvalValue
  | .remote v =>
    match v.kind with
    | .nullReference => return .null
    | .primitive _ => do
      let p ← Eval.native (.readPrimitive v)
      return .primitive p
    | .boxed => do
      let inner ← Eval.native (.unbox v)
      if inner.kind.isPrimitive then do
        let p ← Eval.native (.readPrimitive inner)
        return .primitive p
      else return .remote v
    | _ => return .remote v
  | other => return other

/-- The text of an object: what its own conversion returns, if that is a string, else its type. -/
def objectText (limit : Option Nat) (thread : ThreadId) (v : RemoteValue) : Eval String := do
  let type ← Eval.native (.typeOf v)
  match ← findMethod ⟨"ToString", [], 0, false⟩ type with
  | .found m => do
    match ← callMethod limit thread m (some v) [] [] with
    | .remote text =>
      if text.kind = .string then Eval.native (.readString text) else return v.typeName
    | _ => return v.typeName
  | _ => return v.typeName

/-- The text that a value has inside a string. -/
def stringify (limit : Option Nat) (thread : ThreadId) : EvalValue → Eval String
  | .primitive p => return p.runtimeText
  | .null => return ""
  | .void => throw .voidNotValue
  | .remote v =>
    match v.kind with
    | .string => Eval.native (.readString v)
    | .nullReference => return ""
    | .primitive _ => do
      let p ← Eval.native (.readPrimitive v)
      return p.runtimeText
    | _ => objectText limit thread v

end ManagedDebugger
