import ManagedDebugger.Json.Loose
import ManagedDebugger.Simulation.Process
import ManagedDebugger.Target.Json

/-!
Simulated processes described by JSON scripts: values, types with methods and what they do, symbols,
threads, and calls that are to fail. Every call that changes the process leaves a line in a log.
-/

namespace ManagedDebugger.Simulation

open Json

structure ScriptType where
  info : TypeInfo
  /-- All methods, getters included; a later declaration of one describes them all. -/
  methods : List MethodRef
  statics : Keyed String RemoteValue

/-- What a queued evaluation is to do. -/
inductive Begun where
  | call (method : MethodRef) (arguments : List RemoteValue)
  | text (s : String)

structure Script where
  process : Process
  /-- Module and name of every type, in the order of their tokens. -/
  names : List (ModuleId × String)
  types : List ScriptType
  methods : Keyed MethodRef (MethodInfo × Json)
  /-- The calls that fail, with what they say. -/
  failing : Json
  begun : List (EvalId × ThreadId × Begun)
  /-- The last line first. -/
  log : List String

namespace Script

abbrev Building := StateM Script

def empty : Script := ⟨.empty, [], [], [], .null, [], []⟩

def onHeap {α : Type} (work : StateM Heap α) : Building α := fun s =>
  let (a, heap) := work s.process.heap
  (a, { s with process := { s.process with heap } })

def describe (s : Script) (v : RemoteValue) : String := s.process.heap.describe v

def write (line : String) : Building Unit := modify fun s => { s with log := line :: s.log }

/-- The first type of a name. -/
def typeNamed (s : Script) (name : String) : TypeRef :=
  match s.names.findIdx? (·.2 == name) with
  | some i => ⟨(s.names[i]?.map (·.1)).getD 0, (0x02000001 + i).toUInt32, name⟩
  | none => ⟨0, 0, name⟩

def type? (s : Script) (module : ModuleId) (name : String) : Option ScriptType :=
  s.types.find? fun t => t.info.type.module == module && t.info.type.name == name

/-- A method by its type and parameters, or by its token if it is unknown. -/
def signature (s : Script) (m : MethodRef) : String :=
  match s.methods.get? m with
  | some (info, _) =>
    info.declaringType.name ++ "." ++ info.name ++ "(" ++
      ",".intercalate (info.parameters.map (·.typeName)) ++ ")"
  | none => toString m.module.toNat ++ ":" ++ toString m.token.toNat

def kindNamed? (name : String) : Option ValueKind :=
  let kinds : List ValueKind := [.string, .object, .array, .boxed, .nullReference]
  let kinds := kinds ++ ElementType.all.map ValueKind.primitive
  kinds.find? fun
    | .primitive t => t.label == name
    | kind => kind.json == .str name

/-- Makes the value of a specification, parts first, which nest at most `depth` deep. -/
def value : Nat → Json → StateM Heap RemoteValue
  | 0, _ => Heap.null "System.Object"
  | depth + 1, spec => do
    let label := spec.strAt? "id"
    if let some p := spec.asStr?.bind Primitive.ofTagged? then return ← Heap.primitive p
    if let some s := spec.strAt? "s" then return ← Heap.text s label
    if let some type := spec.strAt? "null" then return ← Heap.null type label
    if let some type := spec.strAt? "obj" then
      let members := (spec.get "f").members.mergeSort fun a b => a.1 ≤ b.1
      let fields ← members.mapM fun (name, part) => return (name, ← value depth part)
      return ← Heap.object type fields label
    if let some type := spec.strAt? "arr" then
      let items ← (spec.itemsAt "e").mapM (value depth)
      let dims := ((spec.itemsAt? "dims").map (·.map asU32)).getD [items.length.toUInt32]
      return ← Heap.array type dims items label
    if let some type := spec.strAt? "box" then
      let inner ← value depth (spec.get "v")
      return ← Heap.boxed type inner label
    if let some v := (spec.strAt? "ref").bind (← get).labels.get? then return v
    if let some kind := (spec.strAt? "bad").bind kindNamed? then
      return ← Heap.add .nothing kind (spec.strAt "type") label
    Heap.null "System.Object" label

/-- More than a text can nest. -/
def depthLimit : Nat := 200

def make (spec : Json) : Building RemoteValue := onHeap (value depthLimit spec)

/-- Adds a method of a type, named `name`. -/
def addMethod (owner : TypeRef) (name : String) (j : Json) : Building MethodRef := do
  let s ← get
  let token := (j.natAt? "tok").getD (0x06000001 + s.methods.length)
  let m : MethodRef := ⟨owner.module, token.toUInt32⟩
  let parameters := ((j.itemsAt "p").filterMap asStr?).mapIdx fun i type =>
    (⟨"arg" ++ toString i, type⟩ : Parameter)
  let info : MethodInfo :=
    { method := m, name, declaringType := owner, isStatic := j.boolAt "s", parameters
      genericArity := j.u32At "ga", returnType := "System.Object", nonUserCode := j.boolAt "nu" }
  set { s with methods := s.methods.put m (info, j.get "do") }
  return m

/-- A property with something to do has a getter. -/
def addProperty (owner : TypeRef) (j : Json) : Building PropertyInfo := do
  let name := j.strAt "n"
  let getter ← match j.get "do" with
    | .null => pure none
    | _ => some <$> addMethod owner ("get_" ++ name) j
  return ⟨name, j.strAt "t", getter, j.boolAt "s"⟩

/-- The name of the base: the root of all types unless the script says otherwise. -/
def baseName? (j : Json) : Option String :=
  match j.get "base" with
  | .null => some "System.Object"
  | other => other.asStr?

def addType (j : Json) : Building Unit := do
  let s ← get
  let index := s.types.length
  let module := (s.names[index]?.map (·.1)).getD 0
  let type : TypeRef := ⟨module, (0x02000001 + index).toUInt32, j.strAt "name"⟩
  let fields := (j.itemsAt "fields").mapIdx fun i f =>
    (⟨(0x04000001 + 1000 * index + i).toUInt32, f.strAt "n", f.strAt "t", f.boolAt "s"⟩ :
      FieldInfo)
  let statics ← ((j.itemsAt "fields").filter fun f => (f.member? "v").isSome).mapM fun f =>
    return (f.strAt "n", ← make (f.get "v"))
  let methods ← (j.itemsAt "methods").mapM fun m => addMethod type (m.strAt "n") m
  let properties ← (j.itemsAt "props").mapM (addProperty type)
  let info : TypeInfo :=
    { type, base := (baseName? j).map s.typeNamed, isValueType := j.boolAt "vt", fields, properties
      methods := [] }
  modify fun s =>
    { s with types := s.types ++ [⟨info, methods ++ properties.filterMap (·.getter), statics⟩] }

def coreType (name base : String) (rest : List (String × Json)) : Json :=
  .obj ([("name", .str name), ("module", .nat 2), ("base", .str base)] ++ rest)

/-- The types that every process has. -/
def coreTypes : List Json :=
  [.obj [("name", .str "System.Object"), ("module", .nat 2), ("base", .bool false),
      ("methods", .arr [.obj [("n", .str "ToString"), ("do", .str "typename")]])],
    coreType "System.ValueType" "System.Object" [],
    coreType "System.String" "System.Object" [("methods", .arr [.obj [
      ("n", .str "op_Equality"), ("s", .bool true), ("do", .str "same"),
      ("p", strings ["System.String", "System.String"])]])],
    coreType "System.Array" "System.Object" [],
    coreType "System.Exception" "System.Object" [],
    coreType "System.InvalidOperationException" "System.Exception" []] ++
  ElementType.all.map fun t => coreType t.runtimeName "System.ValueType" [("vt", .bool true)]

def sequencePoint (j : Json) : SequencePoint :=
  ⟨(j.item 0).asU32, (j.item 1).asU32, (j.item 2).asU32, (j.item 3).asU32, (j.item 4).asU32⟩

def asyncInfo? (j : Json) : Option AsyncInfo :=
  match j with
  | .obj _ =>
    some ⟨(j.itemsAt "awaits").map fun a => ⟨(a.item 0).asU32, (a.item 1).asU32⟩,
      j.u32At "last"⟩
  | _ => none

def methodSymbols (j : Json) : MethodSymbols :=
  { token := j.u32At "tok"
    document := j.strAt "doc"
    codeSize := j.u32At "size"
    sequencePoints := (j.itemsAt "points").map sequencePoint
    asyncInfo := asyncInfo? (j.get "async")
    locals := (j.itemsAt "locals").map fun l =>
      ⟨(l.item 0).asU32, (l.item 1).asStr, (l.item 2).asU32, (l.item 3).asU32⟩
    importedNamespaces := (j.itemsAt "ns").filterMap asStr? }

def moduleSymbols (j : Json) : ModuleSymbols :=
  ⟨(j.itemsAt "methods").map methodSymbols, (j.natAt? "entry").map Nat.toUInt32⟩

def methodRef? (j : Json) : Option MethodRef :=
  match j with
  | .arr _ => some ⟨(j.item 0).asU64, (j.item 1).asU32⟩
  | _ => none

def frame (j : Json) : Building Frame := do
  let this ← match j.member? "this" with
    | some spec => some <$> make spec
    | none => pure none
  let arguments ← (j.itemsAt "args").mapM fun a =>
    return (⟨(a.item 0).asStr, ← make (a.item 1)⟩ : NamedValue)
  let locals ← (j.itemsAt "locals").mapM fun l =>
    return (⟨(l.item 0).asU32, ← make (l.item 1)⟩ : LocalValue)
  return ⟨methodRef? (j.get "m"), j.u32At "off", this, arguments, locals⟩

/-- Gives a thread other frames; a thread that is known keeps its name. -/
def setThread (j : Json) : Building Unit := do
  let frames ← (j.itemsAt "frames").mapM frame
  modify fun s =>
    { s with process := s.process.setFrames (j.u32At "id") (j.strAt? "name") frames }

def build (j : Json) : Building Unit := do
  for spec in j.itemsAt "values" do
    let _ ← make spec
  let types := j.itemsAt "types" ++ coreTypes
  modify fun s =>
    { s with
      names := types.map fun t => (((t.natAt? "module").getD 1).toUInt64, t.strAt "name")
      failing := j.get "fail" }
  types.forM addType
  modify fun s =>
    let symbols := (j.itemsAt "symbols").foldl (fun all m => all.put (m.u64At "module")
      (moduleSymbols m)) s.process.symbols
    { s with process := { s.process with symbols } }
  (j.itemsAt "threads").forM setThread

def read (j : Json) : Script := ((build j).run empty).2

end Script

end ManagedDebugger.Simulation
