import ManagedDebugger.Json.Value
import ManagedDebugger.Target.Call
import ManagedDebugger.Target.Event
import ManagedDebugger.Value.Tagged

/-!
JSON forms of what the target tells: values, descriptions, symbols and answers to calls.
-/

namespace ManagedDebugger

open Json

def ElementType.label : ElementType → String
  | .boolean => "Boolean"
  | .char => "Char"
  | .i1 => "I1"
  | .u1 => "U1"
  | .i2 => "I2"
  | .u2 => "U2"
  | .i4 => "I4"
  | .u4 => "U4"
  | .i8 => "I8"
  | .u8 => "U8"
  | .r4 => "R4"
  | .r8 => "R8"

def MethodRef.json (m : MethodRef) : Json :=
  .obj [("module", .nat m.module.toNat), ("token", .nat m.token.toNat)]

def TypeRef.json (t : TypeRef) : Json :=
  .obj [("module", .nat t.module.toNat), ("token", .nat t.token.toNat), ("name", .str t.name)]

def ValueKind.json : ValueKind → Json
  | .primitive t => .obj [("Primitive", .str t.label)]
  | .string => .str "String"
  | .object => .str "Object"
  | .array => .str "Array"
  | .boxed => .str "Boxed"
  | .nullReference => .str "NullReference"

def RemoteValue.json (v : RemoteValue) : Json :=
  .obj [("id", .nat v.id.number.toNat), ("kind", v.kind.json), ("type_name", .str v.typeName)]

def ModuleInfo.json (m : ModuleInfo) : Json :=
  .obj [("id", .nat m.id.toNat), ("name", .str m.name), ("path", .str m.path)]

def NativeThread.json (t : NativeThread) : Json :=
  .obj [("id", .nat t.id.toNat), ("name", ofOption .str t.name)]

def FrameKind.json : FrameKind → Json
  | .managed => .str "Managed"
  | .native => .str "Native"
  | .runtime => .str "Runtime"

def NativeFrame.json (f : NativeFrame) : Json :=
  .obj [("kind", f.kind.json), ("method", ofOption MethodRef.json f.method),
    ("offset", .nat f.offset.toNat)]

def Parameter.json (p : Parameter) : Json :=
  .obj [("name", .str p.name), ("type_name", .str p.typeName)]

def MethodInfo.json (m : MethodInfo) : Json :=
  .obj [
    ("method", m.method.json),
    ("name", .str m.name),
    ("declaring_type", m.declaringType.json),
    ("is_static", .bool m.isStatic),
    ("parameters", ofList Parameter.json m.parameters),
    ("generic_arity", .nat m.genericArity.toNat),
    ("return_type", .str m.returnType),
    ("non_user_code", .bool m.nonUserCode)]

def FieldInfo.json (f : FieldInfo) : Json :=
  .obj [("token", .nat f.token.toNat), ("name", .str f.name), ("type_name", .str f.typeName),
    ("is_static", .bool f.isStatic)]

def PropertyInfo.json (p : PropertyInfo) : Json :=
  .obj [("name", .str p.name), ("type_name", .str p.typeName),
    ("getter", ofOption MethodRef.json p.getter), ("is_static", .bool p.isStatic)]

def TypeInfo.json (t : TypeInfo) : Json :=
  .obj [
    ("ty", t.type.json),
    ("base", ofOption TypeRef.json t.base),
    ("is_value_type", .bool t.isValueType),
    ("fields", ofList FieldInfo.json t.fields),
    ("properties", ofList PropertyInfo.json t.properties),
    ("methods", ofList MethodInfo.json t.methods)]

def SequencePoint.json (p : SequencePoint) : Json :=
  .obj [
    ("offset", .nat p.offset.toNat),
    ("start_line", .nat p.startLine.toNat),
    ("end_line", .nat p.endLine.toNat),
    ("start_column", .nat p.startColumn.toNat),
    ("end_column", .nat p.endColumn.toNat)]

def AwaitBlock.json (a : AwaitBlock) : Json :=
  .obj [("yield_offset", .nat a.yieldOffset.toNat), ("resume_offset", .nat a.resumeOffset.toNat)]

def AsyncInfo.json (a : AsyncInfo) : Json :=
  .obj [("awaits", ofList AwaitBlock.json a.awaits),
    ("last_user_code_offset", .nat a.lastUserCodeOffset.toNat)]

def LocalName.json (l : LocalName) : Json :=
  .obj [("slot", .nat l.slot.toNat), ("name", .str l.name),
    ("start_offset", .nat l.startOffset.toNat), ("end_offset", .nat l.endOffset.toNat)]

def MethodSymbols.json (m : MethodSymbols) : Json :=
  .obj [
    ("token", .nat m.token.toNat),
    ("document", .str m.document),
    ("code_size", .nat m.codeSize.toNat),
    ("sequence_points", ofList SequencePoint.json m.sequencePoints),
    ("async_info", ofOption AsyncInfo.json m.asyncInfo),
    ("locals", ofList LocalName.json m.locals),
    ("imported_namespaces", strings m.importedNamespaces)]

def ModuleSymbols.json (s : ModuleSymbols) : Json :=
  .obj [("methods", ofList MethodSymbols.json s.methods),
    ("entry_point", ofOption (fun t => .nat t.toNat) s.entryPoint)]

def StepReason.label : StepReason → String
  | .normal => "Normal"
  | .returned => "Return"
  | .call => "Call"
  | .exception => "Exception"
  | .intercept => "Intercept"
  | .exit => "Exit"

def ExceptionStage.label : ExceptionStage → String
  | .firstChance => "FirstChance"
  | .userFirstChance => "UserFirstChance"
  | .catchHandlerFound => "CatchHandlerFound"
  | .unhandled => "Unhandled"

/-- The kind of a notification, and then what it says. -/
def NativeEvent.json : NativeEvent → Json
  | .processCreated pid => .obj [("e", .str "processCreated"), ("pid", .nat pid.toNat)]
  | .processExited code => .obj [("e", .str "processExited"), ("code", .int code.toInt)]
  | .domainCreated => .obj [("e", .str "domainCreated")]
  | .threadCreated t => .obj [("e", .str "threadCreated"), ("thread", .nat t.toNat)]
  | .threadExited t => .obj [("e", .str "threadExited"), ("thread", .nat t.toNat)]
  | .moduleLoaded m => .obj [("e", .str "moduleLoaded"), ("module", m.json)]
  | .moduleUnloaded m => .obj [("e", .str "moduleUnloaded"), ("module", .nat m.toNat)]
  | .breakpointHit t b =>
    .obj [("e", .str "breakpointHit"), ("thread", .nat t.toNat), ("bp", .nat b.number.toNat)]
  | .stepComplete t reason =>
    .obj [("e", .str "stepComplete"), ("thread", .nat t.toNat), ("reason", .str reason.label)]
  | .userBreak t => .obj [("e", .str "break"), ("thread", .nat t.toNat)]
  | .exception t stage v =>
    .obj [("e", .str "exception"), ("thread", .nat t.toNat), ("stage", .str stage.label),
      ("value", v.json)]
  | .evalComplete t e result =>
    .obj [("e", .str "evalComplete"), ("thread", .nat t.toNat), ("eval", .nat e.number.toNat),
      ("value", ofOption RemoteValue.json result)]
  | .evalException t e v =>
    .obj [("e", .str "evalException"), ("thread", .nat t.toNat), ("eval", .nat e.number.toNat),
      ("value", v.json)]

def NamedValue.json (v : NamedValue) : Json := .arr [.str v.name, v.value.json]

def LocalValue.json (v : LocalValue) : Json := .arr [.nat v.slot.toNat, v.value.json]

/-- What a call answers; a call that has nothing to answer is answered by null. -/
def NativeCall.answerJson : (c : NativeCall) → c.Answer → Json
  | .launch _ => fun pid => .nat pid.toNat
  | .createBreakpoint .. => fun b => .nat b.number.toNat
  | .threads => ofList NativeThread.json
  | .frames _ => ofList NativeFrame.json
  | .arguments .. => ofList NamedValue.json
  | .locals .. => ofList LocalValue.json
  | .methodInfo _ => MethodInfo.json
  | .moduleSymbols _ => ofOption ModuleSymbols.json
  | .readPrimitive _ => fun p => .str p.tagged
  | .readString _ => .str
  | .objectAddress _ => fun n => .nat n.toNat
  | .typeOf _ => TypeRef.json
  | .typeInfo _ => TypeInfo.json
  | .findType .. => ofOption TypeRef.json
  | .arrayDimensions _ => ofList fun n => .nat n.toNat
  | .unbox _ | .arrayElement .. | .fieldValue .. | .staticFieldValue .. | .createPrimitive ..
  | .createNull _ | .createHandle _ => RemoteValue.json
  | .beginCall .. | .beginString .. => fun e => .nat e.number.toNat
  | .attach _ | .detach | .terminate | .continueProcess | .stopProcess | .setBreakpointActive ..
  | .step .. | .cancelStep _ | .abortEval _ | .releaseHandle _ => fun _ => .null

end ManagedDebugger
