import ManagedDebugger.Error
import ManagedDebugger.Expr.Syntax

/-!
Programs of the evaluation stack. Operands come before their operator; a member access comes after
its target and the member's name. Each instruction carries the overflow checking in force where its
construct stands.
-/

namespace ManagedDebugger

inductive Operation where
  /-- Pushes a name that is not bound yet. -/
  | name (name : String) (arguments : List TypeExpr)
  | this
  | predefined (runtimeName : String)
  | literal (l : Literal)
  /-- Adds the name on top to the chain of the entry below. -/
  | memberAccess
  /-- Binds the top entry; on null the rest of the chain is skipped. -/
  | conditionalAccess
  | elementAccess (count : Nat)
  | invocation (count : Nat)
  | unary (op : UnaryOp)
  | binary (op : BinaryOp)
  | sizeOf (type : TypeExpr)
  /-- Joins pieces of text with the values on top of the stack. -/
  | interpolate (pieces : List (Piece Unit))
  deriving Repr, BEq, Inhabited

structure Instruction where
  operation : Operation
  checked : Bool
  deriving Repr, BEq, Inhabited

abbrev Code := List Instruction

namespace Expr

def nameCode (name : String) (checked : Bool) :
    Option (List TypeExpr) → Except EvalError Instruction
  | none => .ok ⟨.name name [], checked⟩
  | some [] => .error (.unboundGeneric name)
  | some arguments => .ok ⟨.name name arguments, checked⟩

/-- Only names and members can be called. -/
def callable : Expr → Except EvalError Unit
  | identifier _ | generic .. | member .. => .ok ()
  | unsupported keyword => .error (.unsupportedKeyword keyword)
  | _ => .error .methodNameExpected

def Piece.erase : Piece Expr → Piece Unit
  | .text s => .text s
  | .hole _ => .hole ()

def conditionalCode (conditional checked : Bool) : Code :=
  if conditional then [⟨.conditionalAccess, checked⟩] else []

mutual

def code (checked : Bool) : Expr → Except EvalError Code
  | literal l => .ok [⟨.literal l, checked⟩]
  | identifier name => .ok [⟨.name name [], checked⟩]
  | generic name arguments => do
    let i ← nameCode name checked (some arguments)
    return [i]
  | this => .ok [⟨.this, checked⟩]
  | predefined runtimeName => .ok [⟨.predefined runtimeName, checked⟩]
  | member target name arguments conditional => do
    let t ← target.code checked
    let i ← nameCode name checked arguments
    return t ++ conditionalCode conditional checked ++ [i, ⟨.memberAccess, checked⟩]
  | element target indices conditional => do
    if indices.isEmpty then .error .indexExpected
    let t ← target.code checked
    let is ← codeAll checked indices
    return t ++ conditionalCode conditional checked ++ is ++
      [⟨.elementAccess indices.length, checked⟩]
  | invocation target arguments => do
    target.callable
    let t ← target.code checked
    let as ← codeAll checked arguments
    return t ++ as ++ [⟨.invocation arguments.length, checked⟩]
  | unary op operand => do
    let x ← operand.code checked
    return x ++ [⟨.unary op, checked⟩]
  | binary op left right => do
    let l ← left.code checked
    let r ← right.code checked
    return l ++ r ++ [⟨.binary op, checked⟩]
  | .checked on body => body.code on
  | sizeOf type => .ok [⟨.sizeOf type, checked⟩]
  | interpolated pieces => do
    let holes ← codePieces checked pieces
    return holes ++ [⟨.interpolate (pieces.map Piece.erase), checked⟩]
  | unsupported keyword => .error (.unsupportedKeyword keyword)

def codeAll (checked : Bool) : List Expr → Except EvalError Code
  | [] => .ok []
  | e :: rest => do
    let c ← e.code checked
    let cs ← codeAll checked rest
    return c ++ cs

def codePieces (checked : Bool) : List (Piece Expr) → Except EvalError Code
  | [] => .ok []
  | .text _ :: rest => codePieces checked rest
  | .hole e :: rest => do
    let c ← e.code checked
    let cs ← codePieces checked rest
    return c ++ cs

end

end Expr

end ManagedDebugger
