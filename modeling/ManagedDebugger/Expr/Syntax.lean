import ManagedDebugger.Type.Shown
import ManagedDebugger.Value.Operator
import ManagedDebugger.Value.Primitive

/-!
Syntax trees of expressions.
-/

namespace ManagedDebugger

/-- A type as written: a dotted name, type arguments, and the number of array brackets. A keyword
stands under the runtime's name of its type. -/
inductive TypeExpr where
  | mk (name : String) (arguments : List TypeExpr) (rank : Nat)
  deriving Repr, BEq, Inhabited

namespace TypeExpr

def name : TypeExpr → String
  | mk name _ _ => name

def arguments : TypeExpr → List TypeExpr
  | mk _ arguments _ => arguments

def rank : TypeExpr → Nat
  | mk _ _ rank => rank

def ofPath (path : List String) (arguments : List TypeExpr) (rank : Nat) : TypeExpr :=
  let name := ".".intercalate path
  mk ((Type.ofKeyword? name).getD name) arguments rank

end TypeExpr

/-- The metadata name of a type with `arity` type parameters. -/
def genericName (name : String) (arity : Nat) : String :=
  if arity = 0 then name else name ++ "`" ++ toString arity

def TypeExpr.metadataName (t : TypeExpr) : String :=
  genericName t.name t.arguments.length ++ String.join (List.replicate t.rank "[]")

inductive Literal where
  | primitive (p : Primitive)
  | string (text : String)
  | null
  deriving DecidableEq, Repr, Inhabited

/-- A part of an interpolated string. -/
inductive Piece (α : Type) where
  | text (s : String)
  | hole (a : α)
  deriving Repr, BEq, DecidableEq

inductive Expr where
  | literal (l : Literal)
  | identifier (name : String)
  | generic (name : String) (arguments : List TypeExpr)
  | this
  /-- A keyword for a type, by the runtime's name. -/
  | predefined (runtimeName : String)
  | member (target : Expr) (name : String) (arguments : Option (List TypeExpr)) (conditional : Bool)
  | element (target : Expr) (indices : List Expr) (conditional : Bool)
  | invocation (target : Expr) (arguments : List Expr)
  | unary (op : UnaryOp) (operand : Expr)
  | binary (op : BinaryOp) (left right : Expr)
  | checked (on : Bool) (body : Expr)
  | sizeOf (type : TypeExpr)
  | interpolated (pieces : List (Piece Expr))
  /-- A keyword that can be read but not evaluated. -/
  | unsupported (keyword : String)
  deriving Repr, BEq, Inhabited

end ManagedDebugger
