import ManagedDebugger.Type.Shown
import ManagedDebugger.Value.Operator
import ManagedDebugger.Value.Remote

/-!
Failures, by cause: of the native layer, of an evaluation, and of a request to a session. The
wording of each is in one `message` function.
-/

namespace ManagedDebugger

inductive NativeError where
  | io
  | protocol (detail : String)
  | invalidHandshake
  | agent (code : UInt16)
  | connectionClosed
  | evalAborted (eval : EvalId)
  deriving DecidableEq, Repr, Inhabited

/-- The name of a code with which an agent refuses a command. -/
def agentErrorName (code : UInt16) : String :=
  match code.toNat with
  | 0 => "NONE"
  | 10 => "INVALID_THREAD"
  | 13 => "THREAD_NOT_SUSPENDED"
  | 20 => "INVALID_OBJECT"
  | 21 => "INVALID_TYPE"
  | 23 => "INVALID_METHOD"
  | 24 => "INVALID_OFFSET"
  | 25 => "INVALID_FIELD"
  | 30 => "INVALID_FRAME"
  | 31 => "NO_MORE_FRAMES"
  | 41 => "NOT_FOUND"
  | 60 => "INVALID_BREAKPOINT"
  | 61 => "STEP_IN_PROGRESS"
  | 70 => "EVAL_IN_PROGRESS"
  | 71 => "FUNC_EVAL_BAD_START_POINT"
  | 72 => "EVAL_ABORTED"
  | 99 => "NOT_IMPLEMENTED"
  | 100 => "NULL_REFERENCE"
  | 101 => "ABSENT_INFORMATION"
  | 103 => "ILLEGAL_ARGUMENT"
  | 110 => "OUT_OF_MEMORY"
  | 112 => "PROCESS_EXITED"
  | 113 => "INTERNAL"
  | 500 => "NOT_STOPPED"
  | 503 => "INVALID_TAG"
  | _ => "UNKNOWN_ERROR"

def NativeError.message : NativeError → String
  | io => "IO error"
  | protocol detail => "Protocol error: " ++ detail
  | invalidHandshake => "Invalid handshake"
  | agent code => "Agent error code " ++ toString code.toNat ++ ": " ++ agentErrorName code
  | connectionClosed => "Connection closed"
  | evalAborted eval => eval.text ++ " was aborted"

inductive EvalError where
  | malformed
  | expressionExpected
  | severalExpressions (count : Nat)
  | unboundGeneric (name : String)
  | unsupportedKeyword (keyword : String)
  | indexExpected
  | methodNameExpected
  | memberNameExpected
  | termExpected
  | stackUnderflow
  | leftOnStack (count : Nat)
  | nameNotFound (name : String)
  | noMember (type member : String)
  | noStaticMember (type member : String)
  | noOverload (name : String) (arguments : Nat)
  | typeNotFound (name : String)
  | typeNotValue (name : String)
  | voidNotValue
  | noThis
  | memberOfNull
  | noSize (type : String)
  | notIndexable (shownType : String)
  | wrongRank (expected : Nat)
  | notAnIndex (shownType : String)
  | unaryNotApplicable (op : UnaryOp) (operand : String)
  | binaryNotApplicable (op : BinaryOp) (left right : String)
  | ambiguous (op : BinaryOp) (left right : String)
  | nullReference
  | indexOutOfRange
  | overflow
  | divisionByZero
  | remoteFault (exception : RemoteValue)
  | timeout
  | native (error : NativeError)
  deriving DecidableEq, Repr, Inhabited

namespace EvalError

/-- The stage at which an evaluation failed. -/
inductive Kind where
  | compilation | resolution | runtime | remoteFault | timeout | native
  deriving DecidableEq, Repr

def kind : EvalError → Kind
  | malformed | expressionExpected | severalExpressions _ | unboundGeneric _
  | unsupportedKeyword _ | indexExpected | methodNameExpected | memberNameExpected | termExpected
  | stackUnderflow | leftOnStack _ => .compilation
  | nullReference | indexOutOfRange | overflow | divisionByZero => .runtime
  | remoteFault _ => .remoteFault
  | timeout => .timeout
  | native _ => .native
  | _ => .resolution

def message : EvalError → String
  | malformed => "error CS1525: Invalid expression: unexpected text"
  | expressionExpected => "error CS1733: Expected expression"
  | severalExpressions count =>
    "error: only one expression can be evaluated, found " ++ toString count
  | unboundGeneric name =>
    "error CS7003: Unexpected use of an unbound generic name '" ++ name ++ "'"
  | unsupportedKeyword keyword => "error: '" ++ keyword ++ "' is not supported in expressions"
  | indexExpected => "error CS0443: Syntax error; value expected"
  | methodNameExpected => "error CS0149: Method name expected"
  | memberNameExpected => "error CS1001: Identifier expected"
  | termExpected => "error CS1525: Invalid expression term"
  | stackUnderflow => "error: evaluation stack underflow"
  | leftOnStack count => "error: evaluation left " ++ toString count ++ " values on the stack"
  | nameNotFound name =>
    "error CS0103: The name '" ++ name ++ "' does not exist in the current context"
  | noMember type member =>
    "error CS1061: '" ++ Type.shown type ++ "' does not contain a definition for '" ++ member ++ "'"
  | noStaticMember type member =>
    "error CS0117: '" ++ Type.shown type ++ "' does not contain a definition for '" ++ member ++ "'"
  | noOverload name arguments =>
    "error CS1501: No overload for method '" ++ name ++ "' takes " ++ toString arguments ++
      " arguments"
  | typeNotFound name =>
    "error CS0246: The type or namespace name '" ++ name ++ "' could not be found"
  | typeNotValue name =>
    "error CS0119: '" ++ Type.shown name ++ "' is a type, which is not valid in the given context"
  | voidNotValue => "error CS0029: Cannot implicitly convert type 'void' to 'object'"
  | noThis =>
    "error CS0026: Keyword 'this' is not valid in a static property, static method, or static " ++
      "field initializer"
  | memberOfNull => "error CS0023: Operator '.' cannot be applied to operand of type '<null>'"
  | noSize type =>
    "error CS0233: '" ++ Type.shown type ++ "' does not have a predefined size, therefore " ++
      "sizeof can only be used in an unsafe context"
  | notIndexable shownType =>
    "error CS0021: Cannot apply indexing with [] to an expression of type '" ++ shownType ++ "'"
  | wrongRank expected =>
    "error CS0022: Wrong number of indices inside []; expected " ++ toString expected
  | notAnIndex shownType =>
    "error CS0029: Cannot implicitly convert type '" ++ shownType ++ "' to 'int'"
  | unaryNotApplicable op operand =>
    "error CS0023: Operator '" ++ op.symbol ++ "' cannot be applied to operand of type '" ++
      operand ++ "'"
  | binaryNotApplicable op left right =>
    "error CS0019: Operator '" ++ op.symbol ++ "' cannot be applied to operands of type '" ++
      left ++ "' and '" ++ right ++ "'"
  | ambiguous op left right =>
    "error CS0034: Operator '" ++ op.symbol ++ "' is ambiguous on operands of type '" ++
      left ++ "' and '" ++ right ++ "'"
  | nullReference => "Object reference not set to an instance of an object."
  | indexOutOfRange => "Index was outside the bounds of the array."
  | overflow => "Arithmetic operation resulted in an overflow."
  | divisionByZero => "Attempted to divide by zero."
  | remoteFault exception => "evaluation threw " ++ exception.typeName
  | timeout => "evaluation timed out"
  | native error => error.message

end EvalError

/-- Why a session refuses a request. -/
inductive EngineError where
  | native (error : NativeError)
  | eval (error : EvalError)
  | invalidReference (id : Int)
  | invalidFrame (id : Int)
  | noProcess
  | notStopped
  | stepInProgress (thread : ThreadId)
  deriving DecidableEq, Repr, Inhabited

def EngineError.message : EngineError → String
  | native error => error.message
  | eval error => error.message
  | invalidReference id => "invalid variables reference " ++ toString id
  | invalidFrame id => "invalid frame id " ++ toString id
  | noProcess => "no process is attached"
  | notStopped => "process is not stopped"
  | stepInProgress thread => "a step is already in progress on thread " ++ toString thread.toNat

end ManagedDebugger
