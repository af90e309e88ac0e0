import ManagedDebugger.Target.Call
import ManagedDebugger.Wire.Packet
import ManagedDebugger.Wire.Payload

/-!
Target calls on the wire: the command and payload of each, and the layout of its answer. Values are
named by their id and fields by their token.
-/

namespace ManagedDebugger

open Wire

def StepMode.payload : StepMode → Bytes
  | .range into start stop =>
    Layout.u8.put 1 ++ Layout.bool.put into ++ Layout.u32.put start ++ Layout.u32.put stop
  | .instruction into => Layout.u8.put 2 ++ Layout.bool.put into
  | .out => Layout.u8.put 3

def LaunchRequest.payload (r : LaunchRequest) : Bytes :=
  Layout.string.put r.program ++ Layout.string.list.put r.args ++
    Layout.string.put (r.cwd.getD "") ++ (Layout.string.pair Layout.string).list.put r.env

namespace NativeCall

/-- The command set and the command. -/
def command : NativeCall → UInt8 × UInt8
  | launch _ => (1, 1)
  | attach _ => (1, 2)
  | detach => (1, 3)
  | terminate => (1, 4)
  | continueProcess => (1, 5)
  | stopProcess => (1, 6)
  | threads => (1, 7)
  | createBreakpoint .. => (2, 1)
  | setBreakpointActive .. => (2, 2)
  | step .. => (3, 1)
  | cancelStep _ => (3, 2)
  | frames _ => (4, 1)
  | arguments .. => (4, 2)
  | locals .. => (4, 3)
  | methodInfo _ => (5, 1)
  | moduleSymbols _ => (5, 2)
  | typeOf _ => (5, 3)
  | typeInfo _ => (5, 4)
  | findType .. => (5, 5)
  | readPrimitive _ => (6, 1)
  | readString _ => (6, 2)
  | unbox _ => (6, 3)
  | objectAddress _ => (6, 4)
  | arrayDimensions _ => (6, 5)
  | arrayElement .. => (6, 6)
  | fieldValue .. => (6, 7)
  | staticFieldValue .. => (6, 8)
  | createPrimitive .. => (6, 9)
  | createNull _ => (6, 10)
  | beginCall .. => (7, 1)
  | beginString .. => (7, 2)
  | abortEval _ => (7, 3)
  | createHandle _ => (8, 1)
  | releaseHandle _ => (8, 2)

def valueId (v : RemoteValue) : Bytes := Layout.u64.put v.id.number

def payload : NativeCall → Bytes
  | launch request => request.payload
  | attach pid => Layout.u32.put pid
  | detach | terminate | continueProcess | stopProcess | threads => []
  | createBreakpoint method offset => Layout.methodRef.put method ++ Layout.u32.put offset
  | setBreakpointActive b active => Layout.u32.put b.number ++ Layout.bool.put active
  | step thread mode => Layout.u32.put thread ++ mode.payload
  | cancelStep thread | frames thread | createNull thread => Layout.u32.put thread
  | arguments thread depth | locals thread depth => Layout.u32.put thread ++ Layout.u32.put depth
  | methodInfo method => Layout.methodRef.put method
  | moduleSymbols module => Layout.u64.put module
  | typeOf v | readPrimitive v | readString v | unbox v | objectAddress v | arrayDimensions v
  | createHandle v | releaseHandle v => valueId v
  | typeInfo type => Layout.typeRef.put type
  | findType module name => Layout.u64.put module ++ Layout.string.put name
  | arrayElement array indices => valueId array ++ Layout.u32.list.put indices
  | fieldValue object field => valueId object ++ Layout.u32.put field.token
  | staticFieldValue thread type field =>
    Layout.u32.put thread ++ Layout.typeRef.put type ++ Layout.u32.put field.token
  | createPrimitive thread p => Layout.u32.put thread ++ Layout.primitive.put p
  | beginCall thread method types values =>
    Layout.u32.put thread ++ Layout.methodRef.put method ++ Layout.typeRef.list.put types ++
      Layout.u64.list.put (values.map (·.id.number))
  | beginString thread text => Layout.u32.put thread ++ Layout.string.put text
  | abortEval eval => Layout.u64.put eval.number

def nothing : Layout Unit := ⟨fun _ => [], pure ()⟩

/-- The layout of the answer. -/
def answerLayout : (c : NativeCall) → Layout c.Answer
  | launch _ => Layout.u32
  | createBreakpoint .. => Layout.u32.iso NativeBreakpointId.mk NativeBreakpointId.number
  | threads => Layout.thread.list
  | frames _ => Layout.frame.list
  | arguments .. => Layout.namedValue.list
  | locals .. => Layout.localValue.list
  | methodInfo _ => Layout.methodInfo
  | moduleSymbols _ => Layout.moduleSymbols.option
  | readPrimitive _ => Layout.primitive
  | readString _ => Layout.string
  | objectAddress _ => Layout.u64
  | typeOf _ => Layout.typeRef
  | typeInfo _ => Layout.typeInfo
  | findType .. => Layout.typeRef.option
  | arrayDimensions _ => Layout.u32.list
  | unbox _ | arrayElement .. | fieldValue .. | staticFieldValue .. | createPrimitive ..
  | createNull _ | createHandle _ => Layout.value
  | beginCall .. | beginString .. => Layout.u64.iso EvalId.mk EvalId.number
  | attach _ | detach | terminate | continueProcess | stopProcess | setBreakpointActive .. | step ..
  | cancelStep _ | abortEval _ | releaseHandle _ => nothing

def packet (c : NativeCall) (id : UInt32) : Packet :=
  ⟨id, .command c.command.1 c.command.2, c.payload⟩

/-- The answer in a reply; bytes after it are ignored. -/
def answer (c : NativeCall) (code : UInt16) (payload : Bytes) : Except NativeError c.Answer := do
  let payload ← replyResult code payload
  let (a, _) ← c.answerLayout.read payload
  return a

/-- The release of a handle is sent without waiting for its reply. -/
def isDetached : NativeCall → Bool
  | releaseHandle _ => true
  | _ => false

end NativeCall

end ManagedDebugger
