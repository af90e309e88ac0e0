import ManagedDebugger.Eval.Interpreter

/-!
Evaluation along the syntax tree. A tree is walked from left to right; a name, or a chain of members
on top of something, is only noted down by the walk and has to be bound before its value is there.
The walk is told when an operand is bound: at once, before anything to its right is looked at, or
only when the construct that it is an operand of takes it.
-/

namespace ManagedDebugger

/-- When an operand that the walk has noted down gets its value. -/
inductive BindingTime where
  | atOnce
  | onUse
  deriving DecidableEq, Repr

namespace StackEntry

/-- One more member, unless the chain is skipped. -/
def access (e : StackEntry) (segment : Segment) : StackEntry :=
  if e.skipped then e else { e with chain := e.chain ++ [segment] }

def ofType (t : TypeRef) : StackEntry := { base := some (.type t), chain := [] }

def ofLiteral (v : EvalValue) : StackEntry :=
  { base := some (.value v), chain := [], literal := true }

/-- A chain that met null. -/
def null (editable : Bool) : StackEntry :=
  { base := some (.value .null), chain := [], skipped := true, editable }

end StackEntry

namespace EvalScope

variable (s : EvalScope)

/-- Binds an operand, or leaves it for later. -/
def operand (time : BindingTime) (e : StackEntry) : Eval StackEntry :=
  match time with
  | .atOnce => do
    let v ← s.resolveValue e
    return .ofValue v false
  | .onUse => return e

/-- What is indexed is an operand, unless its chain is skipped. -/
def indexed (time : BindingTime) (e : StackEntry) : Eval StackEntry :=
  if e.skipped then return e else s.operand time e

/-- What a method is called on is an operand, if there is anything; the name of the method stays. -/
def called (time : BindingTime) (e : StackEntry) : Eval StackEntry :=
  match time, e.chain.getLast? with
  | .atOnce, some method =>
    let receiver := { e with chain := e.chain.dropLast }
    if e.skipped || receiver.base.isNone && receiver.chain.isEmpty then return e
    else do
      let (r, editable) ← s.resolve receiver
      return { base := some r, chain := [method], editable }
  | _, _ => return e

/-- A conditional access binds what stands before it, whatever the time. -/
def guarded (e : StackEntry) : Eval StackEntry :=
  if e.skipped then return e
  else do
    let (r, editable) ← s.resolve e
    return if r.isNull then .null editable else { base := some r, chain := [], editable }

def guardedIf (conditional : Bool) (e : StackEntry) : Eval StackEntry :=
  if conditional then s.guarded e else return e

def thisEntry : Eval StackEntry :=
  match s.frame.this with
  | some v => return .ofValue (.remote v) false
  | none => throw .noThis

def typeEntry (name : String) : Eval StackEntry := do
  match ← s.findType name with
  | some t => return .ofType t
  | none => throw (.typeNotFound name)

def literalEntry (l : Literal) : Eval StackEntry := do
  let v ← s.literal l
  return .ofLiteral v

def elementEntry (target : StackEntry) (indices : List EvalValue) : Eval StackEntry :=
  if target.skipped then return target
  else do
    let v ← s.resolveValue target
    let (v, editable) ← s.element v indices
    return .ofValue v editable

def invocationEntry (target : StackEntry) (arguments : List EvalValue) : Eval StackEntry :=
  if target.skipped then return target
  else do
    let v ← s.invoke target arguments
    return .ofValue v false

def unaryEntry (op : UnaryOp) (checked : Bool) (e : StackEntry) : Eval StackEntry := do
  let v ← s.resolveValue e
  let r ← s.unary op checked v
  return .ofValue r false

def binaryEntry (op : BinaryOp) (checked : Bool) (left right : StackEntry) : Eval StackEntry := do
  let l ← s.resolveValue left
  let r ← s.resolveValue right
  let v ← s.binary op checked l r
  return .ofValue v false

def sizeEntry (type : TypeExpr) : Eval StackEntry := do
  let v ← sizeOf type
  return .ofValue v false

def interpolationEntry (pieces : List (Piece Unit)) (values : List EvalValue) :
    Eval StackEntry := do
  let text ← s.joinPieces pieces values
  let v ← s.newString text
  return .ofValue v false

end EvalScope

namespace Expr

variable (s : EvalScope) (time : BindingTime)

mutual

/-- Walks a tree. What is under `checked` or `unchecked` is walked with that setting. -/
def walk (checked : Bool) : Expr → Eval StackEntry
  | literal l => s.literalEntry l
  | identifier name => return .ofName ⟨name, []⟩
  | generic name arguments => return .ofName ⟨name, arguments⟩
  | this => s.thisEntry
  | predefined runtimeName => s.typeEntry runtimeName
  | member target name arguments conditional => do
    let t ← walk checked target
    let t ← s.guardedIf conditional t
    return t.access ⟨name, arguments.getD []⟩
  | element target indices conditional => do
    let t ← walk checked target
    let t ← s.guardedIf conditional t
    let t ← s.indexed time t
    let is ← walkAll checked indices
    let is ← s.resolveValues is
    s.elementEntry t is
  | invocation target arguments => do
    let t ← walk checked target
    let t ← s.called time t
    let as ← walkAll checked arguments
    let as ← s.resolveValues as
    s.invocationEntry t as
  | unary op operand => do
    let x ← walk checked operand
    s.unaryEntry op checked x
  | binary op left right => do
    let l ← walk checked left
    let l ← s.operand time l
    let r ← walk checked right
    s.binaryEntry op checked l r
  | .checked on body => walk on body
  | sizeOf type => EvalScope.sizeEntry type
  | interpolated pieces => do
    let values ← walkHoles checked pieces
    let values ← s.resolveValues values
    s.interpolationEntry (pieces.map Piece.erase) values
  | unsupported keyword => throw (.unsupportedKeyword keyword)

def walkAll (checked : Bool) : List Expr → Eval (List StackEntry)
  | [] => return []
  | e :: rest => do
    let x ← walk checked e
    let x ← s.operand time x
    let xs ← walkAll checked rest
    return x :: xs

def walkHoles (checked : Bool) : List (Piece Expr) → Eval (List StackEntry)
  | [] => return []
  | .text _ :: rest => walkHoles checked rest
  | .hole e :: rest => do
    let x ← walk checked e
    let x ← s.operand time x
    let xs ← walkHoles checked rest
    return x :: xs

end

/-- The value of a tree, and whether it designates a place. -/
def evaluate (e : Expr) (checked : Bool) : Eval Evaluated := do
  let x ← e.walk s time checked
  let (r, editable) ← s.resolve x
  let v ← r.toValue
  return ⟨v, editable⟩

/-- The same in a frame, with overflow checking off at the start. -/
def evaluateIn (ctx : EvalContext) (e : Expr) : Eval Evaluated := do
  let frame ← Eval.ofNative (FrameScope.load ctx)
  e.evaluate ⟨ctx, frame⟩ time false

end Expr

end ManagedDebugger
