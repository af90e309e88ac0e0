import ManagedDebugger.Eval.Names
import ManagedDebugger.Expr.Compile

/-!
Running programs of the evaluation stack in a frame. A chain of names stays unbound until a value is
needed, so that one path resolves names of locals, members and types. What the frame cannot answer
goes through remote calls.
-/

namespace ManagedDebugger

/-- An entry of the stack: something bound, or nothing yet, and the names that still apply to it. -/
structure StackEntry where
  base : Option Resolved
  chain : List Segment
  /-- A conditional access met null, so the rest of its chain is null. -/
  skipped : Bool := false
  literal : Bool := false
  editable : Bool := false
  deriving Repr, Inhabited

namespace StackEntry

def ofValue (v : EvalValue) (editable : Bool) : StackEntry :=
  { base := some (.value v), chain := [], editable }

def ofName (s : Segment) : StackEntry := { base := none, chain := [s] }

/-- The null of the source text has no members at all. -/
def isNullLiteral (e : StackEntry) : Bool := e.literal && e.base == some (.value .null)

end StackEntry

abbrev Stack := List StackEntry

namespace Stack

def pop : Stack → Eval (StackEntry × Stack)
  | [] => throw .stackUnderflow
  | e :: rest => return (e, rest)

/-- The topmost `n` entries, the lowest one first. -/
def popMany (n : Nat) (s : Stack) : Eval (List StackEntry × Stack) :=
  if s.length < n then throw .stackUnderflow else return ((s.take n).reverse, s.drop n)

end Stack

namespace EvalScope

variable (s : EvalScope)

/-- Binds an entry down to a value or a type. -/
def resolve (e : StackEntry) : Eval (Resolved × Bool) :=
  if e.skipped then return (.value .null, false)
  else if e.isNullLiteral && !e.chain.isEmpty then throw .memberOfNull
  else match e.base, e.chain with
    | some base, chain => s.members base e.editable chain
    | none, [] => throw .termExpected
    | none, first :: rest => do
      let (target, editable, rest) ← s.head first rest
      s.members target editable rest

def resolveValue (e : StackEntry) : Eval EvalValue := do
  let (r, _) ← s.resolve e
  r.toValue

def resolveValues : List StackEntry → Eval (List EvalValue)
  | [] => return []
  | e :: rest => do
    let v ← s.resolveValue e
    let vs ← resolveValues rest
    return v :: vs

def newString (text : String) : Eval EvalValue := do
  let v ← RemoteCall.newString s.limit s.thread text
  return .remote v

def call (m : MethodInfo) (receiver : Option RemoteValue) (arguments : List EvalValue)
    (typeArguments : List TypeRef) : Eval EvalValue :=
  callMethod s.limit s.thread m receiver arguments typeArguments

/-- Calls what a lookup found. -/
def callFound (lookup : MethodLookup) (q : MethodQuery) (receiver : Option RemoteValue)
    (typeArguments : List TypeRef) (missing : EvalError) : Eval EvalValue :=
  match lookup with
  | .found m => s.call m receiver q.arguments typeArguments
  | .wrongArguments => throw (.noOverload q.name q.arguments.length)
  | .missing => throw missing

/-- The method of the receiver; without a receiver there is none. -/
def ownMethod (q : MethodQuery) : Eval MethodLookup :=
  match s.frame.this with
  | some this => do
    let type ← Eval.native (.typeOf this)
    findMethod { q with isStatic := false } type
  | none => return .missing

/-- The static method of the enclosing type. -/
def enclosingMethod (q : MethodQuery) : Eval MethodLookup :=
  match s.declaringType? with
  | some type => findMethod { q with isStatic := true } type
  | none => return .missing

/-- A method of the receiver, else a static one of the enclosing type. -/
def invokeByName (q : MethodQuery) (typeArguments : List TypeRef) : Eval EvalValue := do
  match ← s.ownMethod q with
  | .found m => s.call m s.frame.this q.arguments typeArguments
  | own =>
    match ← s.enclosingMethod q, own with
    | .found m, _ => s.call m none q.arguments typeArguments
    | .missing, .missing => throw (.nameNotFound q.name)
    | _, _ => throw (.noOverload q.name q.arguments.length)

/-- The object on which a method is called; a local primitive gets a copy in the target. -/
def receiver : EvalValue → Eval RemoteValue
  | .null => throw .nullReference
  | .void => throw .voidNotValue
  | .remote v => if v.isNull then throw .nullReference else return v
  | .primitive p => Eval.native (.createPrimitive s.thread p)

def invokeOn (target : Resolved) (q : MethodQuery) (typeArguments : List TypeRef) :
    Eval EvalValue :=
  match target with
  | .type t => do
    let q := { q with isStatic := true }
    let lookup ← findMethod q t
    s.callFound lookup q none typeArguments (.noStaticMember t.name q.name)
  | .value v => do
    let object ← s.receiver v
    let type ← Eval.native (.typeOf object)
    let q := { q with isStatic := false }
    let lookup ← findMethod q type
    s.callFound lookup q (some object) typeArguments (.noMember object.typeName q.name)

/-- The last name of the chain is the method, what comes before it is the target. -/
def invoke (e : StackEntry) (arguments : List EvalValue) : Eval EvalValue :=
  match e.chain.getLast? with
  | none => throw .methodNameExpected
  | some method => do
    let types ← s.typeArguments method.typeArguments
    let q : MethodQuery :=
      ⟨method.name, arguments, method.typeArguments.length.toUInt32, false⟩
    let target := { e with chain := e.chain.dropLast }
    if target.base.isNone && target.chain.isEmpty then s.invokeByName q types
    else do
      let (r, _) ← s.resolve target
      s.invokeOn r q types

/-- An index as a number. -/
def indexOf (v : EvalValue) : Eval Int := do
  match ← localize v with
  | .primitive p =>
    match p.index? with
    | some i => return i
    | none => throw (.notAnIndex p.type.keyword)
  | other => throw (.notAnIndex other.typeName)

/-- Each index has to be below its dimension. -/
def position : List EvalValue → List UInt32 → Eval (List UInt32)
  | v :: indices, d :: dims => do
    let i ← indexOf v
    if i < 0 ∨ (d.toNat : Int) ≤ i then throw .indexOutOfRange
    else do
      let rest ← position indices dims
      return i.toNat.toUInt32 :: rest
  | _, _ => return []

def elementOfArray (array : RemoteValue) (indices : List EvalValue) : Eval EvalValue := do
  let dims ← Eval.native (.arrayDimensions array)
  if indices.length ≠ dims.length then throw (.wrongRank dims.length)
  else do
    let place ← position indices dims
    let v ← Eval.native (.arrayElement array place)
    return .remote v

def unitOfString (text : RemoteValue) (index : EvalValue) : Eval EvalValue := do
  let i ← indexOf index
  let units := Text.units (← Eval.native (.readString text))
  if i < 0 then throw .indexOutOfRange
  else match units[i.toNat]? with
    | some u => return .primitive (.char u)
    | none => throw .indexOutOfRange

def elementByIndexer (object : RemoteValue) (indices : List EvalValue) : Eval EvalValue := do
  let type ← Eval.native (.typeOf object)
  match ← findMethod ⟨"get_Item", indices, 0, false⟩ type with
  | .found m => s.call m (some object) indices []
  | _ => throw (.notIndexable (Type.shown object.typeName))

/-- Elements of arrays are places, units of strings and results of indexers are not. -/
def element (target : EvalValue) (indices : List EvalValue) : Eval (EvalValue × Bool) :=
  match target with
  | .null => throw .nullReference
  | .remote v =>
    match v.kind, indices with
    | .nullReference, _ => throw .nullReference
    | .array, _ => do
      let e ← elementOfArray v indices
      return (e, true)
    | .string, [index] => do
      let u ← unitOfString v index
      return (u, false)
    | _, _ => do
      let e ← s.elementByIndexer v indices
      return (e, false)
  | other => throw (.notIndexable other.typeName)

def unary (op : UnaryOp) (checked : Bool) (operand : EvalValue) : Eval EvalValue := do
  match ← localize operand with
  | .primitive p => do
    let r ← op.apply checked p
    return .primitive r
  | .null => return .null
  | .void => throw (.unaryNotApplicable op "void")
  | .remote v => do
    let type ← Eval.native (.typeOf v)
    match ← findMethod ⟨op.methodName, [.remote v], 0, true⟩ type with
    | .found m => do
      let r ← s.call m none [.remote v] []
      localize r
    | _ => throw (.unaryNotApplicable op (Type.shown v.typeName))

/-- Comparisons with null are false, except that null equals null; all else is null. -/
def withNull (op : BinaryOp) (both : Bool) : EvalValue :=
  match op with
  | .eq => .primitive (.bool both)
  | .ne => .primitive (.bool !both)
  | _ => if op.isComparison then .primitive (.bool false) else .null

/-- The operator that the type of one of some operands declares, applied to both. -/
def declaredOperator (name : String) (operands : List EvalValue) :
    List EvalValue → Eval (Option EvalValue)
  | [] => return none
  | .remote v :: rest => do
    let type ← Eval.native (.typeOf v)
    match ← findMethod ⟨name, operands, 0, true⟩ type with
    | .found m => do
      let r ← s.call m none operands []
      let r ← localize r
      return some r
    | _ => declaredOperator name operands rest
  | _ :: rest => declaredOperator name operands rest

/-- Objects without an operator of their own can be compared for identity. -/
def identity (op : BinaryOp) (l r : EvalValue) : Eval EvalValue :=
  match op.isEquality, l, r with
  | true, .remote a, .remote b => do
    let x ← Eval.native (.objectAddress a)
    let y ← Eval.native (.objectAddress b)
    return .primitive (.bool ((x == y) == (op == .eq)))
  | _, _, _ => throw (.binaryNotApplicable op l.typeName r.typeName)

def onObjects (op : BinaryOp) (l r : EvalValue) : Eval EvalValue := do
  match op.methodName? with
  | some name =>
    match ← s.declaredOperator name [l, r] [l, r] with
    | some v => return v
    | none => identity op l r
  | none => identity op l r

def concat (l r : EvalValue) : Eval EvalValue := do
  let a ← stringify s.limit s.thread l
  let b ← stringify s.limit s.thread r
  s.newString (a ++ b)

def binary (op : BinaryOp) (checked : Bool) (l r : EvalValue) : Eval EvalValue := do
  let l ← localize l
  let r ← localize r
  if op = .coalesce then return if l.isNull then r else l
  else if l.isVoid || r.isVoid then throw (.binaryNotApplicable op l.typeName r.typeName)
  else if op = .add && (l.isString || r.isString) then s.concat l r
  else if l.isNull || r.isNull then return withNull op (l.isNull && r.isNull)
  else match l, r with
    | .primitive a, .primitive b => do
      let p ← op.apply checked a b
      return .primitive p
    | _, _ => s.onObjects op l r

def literal : Literal → Eval EvalValue
  | .primitive p => return .primitive p
  | .null => return .null
  | .string text => s.newString text

def sizeOf (type : TypeExpr) : Eval EvalValue :=
  match ElementType.ofRuntimeName? type.metadataName with
  | some t => return .primitive (.i32 (Int32.ofNat t.size))
  | none => throw (.noSize type.metadataName)

/-- Pieces of text and the texts of values, one after the other. -/
def joinPieces : List (Piece Unit) → List EvalValue → Eval String
  | [], _ => return ""
  | .text t :: pieces, values => do
    let rest ← joinPieces pieces values
    return t ++ rest
  | .hole () :: pieces, v :: values => do
    let t ← stringify s.limit s.thread v
    let rest ← joinPieces pieces values
    return t ++ rest
  | .hole () :: pieces, [] => joinPieces pieces []

def holeCount (pieces : List (Piece Unit)) : Nat :=
  (pieces.filter fun p => p == .hole ()).length

def memberAccess (stack : Stack) : Eval Stack := do
  let (name, stack) ← stack.pop
  match name.chain, stack with
  | [], _ => throw .memberNameExpected
  | _ :: _, [] => throw .stackUnderflow
  | segment :: _, target :: rest =>
    if target.skipped then return target :: rest
    else return { target with chain := target.chain ++ [segment] } :: rest

def conditionalAccess (stack : Stack) : Eval Stack := do
  let (e, stack) ← stack.pop
  if e.skipped then return e :: stack
  else do
    let (r, editable) ← s.resolve e
    let skipped := r.isNull
    let base := if skipped then .value .null else r
    return { base := some base, chain := [], skipped, editable } :: stack

def elementAccess (count : Nat) (stack : Stack) : Eval Stack := do
  let (indices, stack) ← stack.popMany count
  let indices ← s.resolveValues indices
  let (target, stack) ← stack.pop
  if target.skipped then return target :: stack
  else do
    let v ← s.resolveValue target
    let (v, editable) ← s.element v indices
    return .ofValue v editable :: stack

def invocation (count : Nat) (stack : Stack) : Eval Stack := do
  let (arguments, stack) ← stack.popMany count
  let arguments ← s.resolveValues arguments
  let (target, stack) ← stack.pop
  if target.skipped then return target :: stack
  else do
    let v ← s.invoke target arguments
    return .ofValue v false :: stack

def execute (i : Instruction) (stack : Stack) : Eval Stack :=
  match i.operation with
  | .name name arguments => return .ofName ⟨name, arguments⟩ :: stack
  | .this =>
    match s.frame.this with
    | some v => return .ofValue (.remote v) false :: stack
    | none => throw .noThis
  | .predefined name => do
    match ← s.findType name with
    | some t => return { base := some (.type t), chain := [] } :: stack
    | none => throw (.typeNotFound name)
  | .literal l => do
    let v ← s.literal l
    return { base := some (.value v), chain := [], literal := true } :: stack
  | .memberAccess => memberAccess stack
  | .conditionalAccess => s.conditionalAccess stack
  | .elementAccess count => s.elementAccess count stack
  | .invocation count => s.invocation count stack
  | .unary op => do
    let (e, stack) ← stack.pop
    let v ← s.resolveValue e
    let r ← s.unary op i.checked v
    return .ofValue r false :: stack
  | .binary op => do
    let (right, stack) ← stack.pop
    let (left, stack) ← stack.pop
    let l ← s.resolveValue left
    let r ← s.resolveValue right
    let v ← s.binary op i.checked l r
    return .ofValue v false :: stack
  | .sizeOf type => do
    let v ← sizeOf type
    return .ofValue v false :: stack
  | .interpolate pieces => do
    let (values, stack) ← stack.popMany (holeCount pieces)
    let values ← s.resolveValues values
    let text ← s.joinPieces pieces values
    let v ← s.newString text
    return .ofValue v false :: stack

def executeAll : Code → Stack → Eval Stack
  | [], stack => return stack
  | i :: rest, stack => do
    let stack ← s.execute i stack
    executeAll rest stack

/-- Runs a program on an empty stack; it has to leave one entry, and that has to be a value. -/
def run (code : Code) : Eval Evaluated := do
  match ← s.executeAll code [] with
  | [e] => do
    let (r, editable) ← s.resolve e
    let v ← r.toValue
    return ⟨v, editable⟩
  | stack => throw (.leftOnStack stack.length)

end EvalScope

/-- Runs a compiled program in the frame of the context. -/
def Code.evaluate (ctx : EvalContext) (code : Code) : Eval Evaluated := do
  let frame ← Eval.ofNative (FrameScope.load ctx)
  EvalScope.run ⟨ctx, frame⟩ code

def evaluate (ctx : EvalContext) (text : String) : Eval Evaluated := do
  let code ← Expr.compile text
  code.evaluate ctx

end ManagedDebugger
