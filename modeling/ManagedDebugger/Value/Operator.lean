/-!
The operators of the expression language, their symbols and the names of the methods that overload
them.
-/

namespace ManagedDebugger

inductive UnaryOp where
  | plus | minus | not | bitNot
  deriving DecidableEq, Repr, Inhabited

namespace UnaryOp

def all : List UnaryOp := [plus, minus, not, bitNot]

def symbol : UnaryOp → String
  | plus => "+"
  | minus => "-"
  | not => "!"
  | bitNot => "~"

def methodName : UnaryOp → String
  | plus => "op_UnaryPlus"
  | minus => "op_UnaryNegation"
  | not => "op_LogicalNot"
  | bitNot => "op_OnesComplement"

end UnaryOp

inductive BinaryOp where
  | mul | div | rem | add | sub | shl | shr | lt | gt | le | ge | eq | ne | bitAnd | bitXor | bitOr
  | and | or | coalesce
  deriving DecidableEq, Repr, Inhabited

namespace BinaryOp

def all : List BinaryOp :=
  [mul, div, rem, add, sub, shl, shr, lt, gt, le, ge, eq, ne, bitAnd, bitXor, bitOr, and, or,
    coalesce]

def symbol : BinaryOp → String
  | mul => "*"
  | div => "/"
  | rem => "%"
  | add => "+"
  | sub => "-"
  | shl => "<<"
  | shr => ">>"
  | lt => "<"
  | gt => ">"
  | le => "<="
  | ge => ">="
  | eq => "=="
  | ne => "!="
  | bitAnd => "&"
  | bitXor => "^"
  | bitOr => "|"
  | and => "&&"
  | or => "||"
  | coalesce => "??"

/-- The conditional operators cannot be overloaded. -/
def methodName? : BinaryOp → Option String
  | mul => some "op_Multiply"
  | div => some "op_Division"
  | rem => some "op_Modulus"
  | add => some "op_Addition"
  | sub => some "op_Subtraction"
  | shl => some "op_LeftShift"
  | shr => some "op_RightShift"
  | lt => some "op_LessThan"
  | gt => some "op_GreaterThan"
  | le => some "op_LessThanOrEqual"
  | ge => some "op_GreaterThanOrEqual"
  | eq => some "op_Equality"
  | ne => some "op_Inequality"
  | bitAnd => some "op_BitwiseAnd"
  | bitXor => some "op_ExclusiveOr"
  | bitOr => some "op_BitwiseOr"
  | and | or | coalesce => none

def isEquality : BinaryOp → Bool
  | eq | ne => true
  | _ => false

def isComparison : BinaryOp → Bool
  | lt | gt | le | ge | eq | ne => true
  | _ => false

/-- Shifts take the width of their left operand alone. -/
def isShift : BinaryOp → Bool
  | shl | shr => true
  | _ => false

end BinaryOp

end ManagedDebugger
