import ManagedDebugger.Expr.Code
import ManagedDebugger.Expr.Parser

/-!
From text to a program: exactly one expression, with overflow checking off at the start.
-/

namespace ManagedDebugger.Expr

def compile (text : String) : Except EvalError Code :=
  match parse? text with
  | none => .error .malformed
  | some [] => .error .expressionExpected
  | some [e] => e.code false
  | some es => .error (.severalExpressions es.length)

end ManagedDebugger.Expr
