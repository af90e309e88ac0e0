import ManagedDebugger.Simulation.Mock
import ManagedDebugger.Step.Identity

/-!
Two mock programs that are stopped: one in ordinary code, one in an asynchronous method.
-/

namespace ManagedDebugger.Simulation.Mock

/-- A title made of the program's name. -/
def title : Behavior := fun arguments => do
  let this ← argument arguments 0
  let h ← get
  let name := ((h.field? this "name").bind h.text?).getD ""
  return .ok (some (← Heap.text ("Program " ++ name)))

def fails : Behavior := fun _ => invalidOperation

/-- Thread 1 is in `App.Program.Run`, on an object with fields, a property and methods. -/
def buildProgram : Building Unit := do
  let _ ← defineType appModule "App.Node" (some "System.Object")
  addField "App.Node" "Next" "App.Node" false
  addField "App.Node" "Value" "System.Int32" false
  let program := "App.Program"
  let _ ← defineType appModule program (some "System.Object")
  addField program "count" "System.Int32" false
  addField program "name" "System.String" false
  addField program "Version" "System.Int32" true
  let _ ← addProperty program "Title" "System.String" (some title)
  let _ ← addMethod program "Add" ["System.Int32", "System.Int32"] false
    (some (onInts 1 2 (· + ·)))
  let _ ← addMethod program "Fail" [] false (some fails)
  let run ← addMethod program "Run" [] false none
  let count ← onHeap (Heap.primitive (.i32 5))
  let name ← onHeap (Heap.text "mdbg")
  let this ← onHeap (Heap.object program [("count", count), ("name", name)])
  let version ← onHeap (Heap.primitive (.i32 3))
  let x ← onHeap (Heap.primitive (.i32 7))
  let items ← [10, 20, 30].mapM fun n => onHeap (Heap.primitive (.i32 n))
  let arr ← onHeap (Heap.array "System.Int32[]" [3] items)
  let node ← onHeap (Heap.null "App.Node")
  setStatic program "Version" version
  let symbols :=
    { methodSymbols run.token "/src/App/Program.cs" [(0, 20), (8, 21), (16, 22)] with
      locals := ["x", "arr", "node"].mapIdx fun slot name => ⟨slot.toUInt32, name, 0, 26⟩
      importedNamespaces := ["System"] }
  setSymbols appModule ⟨[symbols], some run.token⟩
  let locals := [x, arr, node].mapIdx fun slot v => (⟨slot.toUInt32, v⟩ : LocalValue)
  setFrames 1 [⟨some run, 8, some this, [], locals⟩]

def program : Mock := (buildProgram.run new).2

def machineType : String := "App.Program+<RunAsync>d__0"

def builderType : String := "System.Runtime.CompilerServices.AsyncTaskMethodBuilder"

/-- The task that a builder builds. -/
def taskOf : Behavior := fun arguments => do
  let builder ← argument arguments 0
  return .ok ((← get).field? builder "task")

/-- A state machine whose builder builds a task. -/
def machineFor (task : RemoteValue) : Building RemoteValue := do
  let builder ← onHeap (Heap.object builderType [("task", task)])
  onHeap (Heap.object machineType [(Step.builderField, builder)])

/-- Thread 1 is in a method with one await, on the first of three state machines. The answer is the
method and the machines, of which the first and the last share a task. -/
def buildAsyncProgram : Building (MethodRef × List RemoteValue) := do
  let _ ← defineType appModule machineType (some "System.Object")
  addField machineType Step.builderField builderType false
  let _ ← defineType appModule builderType (some "System.ValueType")
  addField builderType "task" "System.Object" false
  let _ ← addProperty builderType Step.identityProperty "System.Object" (some taskOf)
  let method ← addMethod machineType "MoveNext" [] false none
  let symbols :=
    { methodSymbols method.token "Program.cs" [(0, 10), (10, 11), (30, 12), (40, 13)] with
      asyncInfo := some ⟨[⟨12, 30⟩], 40⟩ }
  setSymbols appModule ⟨[symbols], none⟩
  let task := "System.Threading.Tasks.Task"
  let shared ← onHeap (Heap.object task [])
  let other ← onHeap (Heap.object task [])
  let machines ← [shared, other, shared].mapM machineFor
  setFrames 1 [⟨some method, 10, machines.head?, [], []⟩]
  return (method, machines)

def asyncProgram : (MethodRef × List RemoteValue) × Mock := buildAsyncProgram.run new

end ManagedDebugger.Simulation.Mock
