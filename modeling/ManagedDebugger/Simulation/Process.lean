import ManagedDebugger.Session.Machine
import ManagedDebugger.Simulation.Heap
import ManagedDebugger.Symbol.Table

/-!
Simulated processes: a stopped program with a heap, threads and symbols, in place of a live target.
-/

namespace ManagedDebugger.Simulation

structure Frame where
  method : Option MethodRef
  offset : UInt32
  this : Option RemoteValue
  arguments : List NamedValue
  locals : List LocalValue
  deriving Repr, Inhabited

def Frame.native (f : Frame) : NativeFrame :=
  ⟨if f.method.isSome then .managed else .native, f.method, f.offset⟩

def Frame.allArguments (f : Frame) : List NamedValue :=
  (f.this.map fun v => ⟨"this", v⟩ : Option NamedValue).toList ++ f.arguments

structure Thread where
  name : Option String
  frames : List Frame
  deriving Repr, Inhabited

structure Process where
  heap : Heap
  threads : Keyed ThreadId Thread
  symbols : Keyed ModuleId ModuleSymbols
  lastBreakpoint : UInt32
  lastEval : UInt64

def Process.empty : Process := ⟨.empty, [], [], 0, 0⟩

/-- What a simulated process does for a call. -/
abbrev Reaction (τ : Type) := ExceptT NativeError (StateM τ)

def refuse {τ α : Type} (detail : String) : Reaction τ α := throw (.protocol detail)

def orRefuse {τ α : Type} (detail : String) : Option α → Reaction τ α
  | some a => pure a
  | none => refuse detail

/-- Works on the process in a larger state. -/
def Reaction.onProcess {τ α : Type} (view : τ → Process) (put : τ → Process → τ)
    (r : Reaction Process α) : Reaction τ α := fun s =>
  let (a, p) := r (view s)
  (a, put s p)

namespace Process

def setFrames (p : Process) (id : ThreadId) (name : Option String) (frames : List Frame) :
    Process :=
  let name := match p.threads.get? id with
    | some t => t.name
    | none => name
  { p with threads := p.threads.put id ⟨name, frames⟩ }

def symbolTable (p : Process) : SymbolTable :=
  p.symbols.foldl (fun (table : SymbolTable) (m, s) => table.add m s) SymbolTable.empty

def onHeap {α : Type} (work : StateM Heap α) : Reaction Process α := fun p =>
  let (a, heap) := work p.heap
  (.ok a, { p with heap })

def frame (thread : ThreadId) (depth : UInt32) : Reaction Process Frame := do
  let p ← get
  orRefuse ("no frame " ++ toString depth.toNat ++ " on thread " ++ toString thread.toNat)
    ((p.threads.get? thread).bind (·.frames[depth.toNat]?))

/-- Reactions to the calls that look at threads and values. -/
def inspect : (call : NativeCall) → Reaction Process call.Answer
  | .threads => return (← get).threads.map fun (id, t) => ⟨id, t.name⟩
  | .frames thread => do
    let t ← orRefuse ("no thread " ++ toString thread.toNat) ((← get).threads.get? thread)
    return t.frames.map Frame.native
  | .arguments thread depth => do
    let f ← frame thread depth
    return f.allArguments
  | .locals thread depth => do
    let f ← frame thread depth
    return f.locals
  | .moduleSymbols module => return (← get).symbols.get? module
  | .readPrimitive v => do orRefuse "not a primitive" ((← get).heap.primitive? v)
  | .readString v => do orRefuse "not a string" ((← get).heap.text? v)
  | .unbox v => do orRefuse "not a boxed value" ((← get).heap.inner? v)
  | .arrayDimensions v => do orRefuse "not an array" ((← get).heap.dims? v)
  | .arrayElement v indices => do
    let v ← (← get).heap.element v indices
    return v
  | .fieldValue v field => do
    orRefuse ("no field " ++ field.name) ((← get).heap.field? v field.name)
  | .createPrimitive _ p => onHeap (Heap.primitive p)
  | .createNull _ => onHeap (Heap.null "System.Object")
  | .createHandle v => do
    let (v, heap) ← orRefuse "dangling value" ((← get).heap.copy? v)
    modify fun p => { p with heap }
    return v
  | _ => refuse "not supported"

/-- The number of a new breakpoint. -/
def nextBreakpoint : Reaction Process NativeBreakpointId := do
  let id := (← get).lastBreakpoint + 1
  modify fun p => { p with lastBreakpoint := id }
  return ⟨id⟩

def nextEval : Reaction Process EvalId := do
  let id := (← get).lastEval + 1
  modify fun p => { p with lastEval := id }
  return ⟨id⟩

end Process

end ManagedDebugger.Simulation
