import ManagedDebugger.Json.Loose
import ManagedDebugger.Simulation.Mock

/-!
Recipes in JSON for the values, behaviors and call stacks of mock targets. A recipe may name a value
that was made before.
-/

namespace ManagedDebugger.Simulation.Recipe

open Json

/-- Values and methods by the names that recipes use. -/
structure Names where
  values : Keyed String RemoteValue
  methods : Keyed String MethodRef

/-- What an unknown name stands for. -/
def nobody : RemoteValue := ⟨⟨0⟩, .object, "System.Object"⟩

def Names.value (names : Names) (j : Json) : RemoteValue :=
  (names.values.get? j.asStr).getD nobody

/-- A method by name or by module and token; `entry` is the entry point of the application. -/
def Names.method (names : Names) (m : Mock) (j : Json) : MethodRef :=
  match j with
  | .arr _ => ⟨(j.item 0).asU64, (j.item 1).asU32⟩
  | .str "entry" =>
    (m.process.symbolTable.entryPoint? Mock.appModule).getD ⟨Mock.appModule, 0⟩
  | _ => (names.methods.get? j.asStr).getD ⟨Mock.appModule, 0⟩

/-- Makes the value of a recipe, parts first, which nest at most `depth` deep. -/
def make (names : Names) : Nat → Json → StateM Heap RemoteValue
  | 0, _ => return nobody
  | depth + 1, spec => do
    if let some name := spec.asStr? then
      match Primitive.ofTagged? name with
      | some p => Heap.primitive p
      | none => return names.value spec
    else if let some s := spec.strAt? "s" then Heap.text s
    else if let some type := spec.strAt? "null" then Heap.null type
    else if let some type := spec.strAt? "obj" then
      let members := (spec.get "f").members.mergeSort fun a b => a.1 ≤ b.1
      let fields ← members.mapM fun (name, part) => return (name, ← make names depth part)
      Heap.object type fields
    else if let some type := spec.strAt? "arr" then
      let items ← (spec.itemsAt "e").mapM (make names depth)
      Heap.array type [items.length.toUInt32] items
    else if let some p := (spec.strAt? "boxed").bind Primitive.ofTagged? then
      Heap.boxed p.type.runtimeName (← Heap.primitive p)
    else return nobody

/-- More than a text can nest. -/
def depthLimit : Nat := 200

def value (names : Names) (spec : Json) : StateM Heap RemoteValue := make names depthLimit spec

/-- Changes a field of the first argument to the second. -/
def store (field : String) : Behavior := fun arguments => do
  if let some object := arguments[0]? then
    if let some v := arguments[1]? then modify fun h => h.setField object field v
  return .ok none

/-- What a method does: the first of throwing, returning, reading a field, storing into a field and
handing an argument back that the recipe asks for. -/
def behavior? (names : Names) (run : Json) : Option Behavior :=
  match run with
  | .null => none
  | _ => some fun arguments => do
    match run.member? "throw", run.member? "ret", run.strAt? "field", run.strAt? "store",
      run.natAt? "arg" with
    | some spec, _, _, _, _ => return .error (← value names spec)
    | _, some spec, _, _, _ => return .ok (some (← value names spec))
    | _, _, some name, _, _ =>
      let h ← get
      return .ok ((arguments[0]?).bind fun v => h.field? v name)
    | _, _, _, some name, _ => store name arguments
    | _, _, _, _, some i => return .ok arguments[i]?
    | _, _, _, _, _ => return .ok none

def frame (names : Names) (j : Json) : Mock.Building Frame := do
  let make (spec : Json) : Mock.Building RemoteValue := Mock.onHeap (value names spec)
  let this ← match j.member? "this" with
    | some spec => some <$> make spec
    | none => pure none
  let arguments ← (j.itemsAt "args").mapM fun a =>
    return (⟨(a.item 0).asStr, ← make (a.item 1)⟩ : NamedValue)
  let locals ← (j.itemsAt "locals").mapM fun l =>
    return (⟨(l.item 0).asU32, ← make (l.item 1)⟩ : LocalValue)
  return ⟨some (names.method (← get) (j.get "m")), j.u32At "off", this, arguments, locals⟩

end ManagedDebugger.Simulation.Recipe
