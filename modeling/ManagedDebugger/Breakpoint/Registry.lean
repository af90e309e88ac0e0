import ManagedDebugger.Breakpoint.HitCondition
import ManagedDebugger.Symbol.Table
import ManagedDebugger.Target.Native

/-!
Breakpoints that the user asked for, by source file and by the handle that the target gave out. One
that no loaded module has a place for stays pending and is tried again with every module that is
loaded.
-/

namespace ManagedDebugger

structure BreakpointRequest where
  line : UInt32
  condition : Option String
  hitCondition : Option String
  deriving DecidableEq, Repr, Inhabited

/-- What became of a breakpoint in the target. -/
inductive Binding where
  | pending
  | bound (place : ResolvedBreakpoint) (handle : NativeBreakpointId)
  | failed (message : String)
  deriving DecidableEq, Repr, Inhabited

namespace Binding

def isPending : Binding → Bool
  | pending => true
  | _ => false

def isBound : Binding → Bool
  | bound .. => true
  | _ => false

def place? : Binding → Option ResolvedBreakpoint
  | bound place _ => some place
  | _ => none

def handle? : Binding → Option NativeBreakpointId
  | bound _ handle => some handle
  | _ => none

/-- What to tell the user about a breakpoint that is not bound. -/
def message? : Binding → Option String
  | pending =>
    some "The breakpoint is pending and will be resolved when the module is loaded"
  | bound .. => none
  | failed message => some message

end Binding

structure Breakpoint where
  id : UInt32
  file : String
  line : UInt32
  condition : Option String
  hitCondition : Option HitCondition
  hits : UInt32
  binding : Binding
  deriving DecidableEq, Repr, Inhabited

/-- The status of a breakpoint that the front end is told. -/
structure BreakpointInfo where
  id : UInt32
  verified : Bool
  source : String
  line : UInt32
  endLine : Option UInt32
  message : Option String
  deriving DecidableEq, Repr, Inhabited

namespace Breakpoint

/-- A blank condition and a rule that cannot be read do not count. -/
def ofRequest (id : UInt32) (file : String) (r : BreakpointRequest) : Breakpoint :=
  { id, file, line := r.line,
    condition := r.condition.filter fun c => !Text.allBlank c,
    hitCondition := r.hitCondition.bind HitCondition.parse?,
    hits := 0, binding := .pending }

def info (b : Breakpoint) : BreakpointInfo :=
  { id := b.id, verified := b.binding.isBound, source := b.file,
    line := (b.binding.place?.map (·.line)).getD b.line,
    endLine := b.binding.place?.map (·.endLine),
    message := b.binding.message? }

/-- Bound in code of the module. -/
def isIn (module : ModuleId) (b : Breakpoint) : Bool :=
  b.binding.place?.any fun place => place.method.module == module

end Breakpoint

structure BreakpointRegistry where
  lastId : UInt32
  breakpoints : Keyed UInt32 Breakpoint
  byFile : Keyed String (List UInt32)
  byHandle : Keyed NativeBreakpointId UInt32
  deriving Repr

namespace BreakpointRegistry

def empty : BreakpointRegistry := ⟨0, [], [], []⟩

def get? (r : BreakpointRegistry) (id : UInt32) : Option Breakpoint := r.breakpoints.get? id

def byHandle? (r : BreakpointRegistry) (handle : NativeBreakpointId) : Option Breakpoint :=
  (r.byHandle.get? handle).bind r.get?

def forFile (r : BreakpointRegistry) (file : String) : List Breakpoint :=
  ((r.byFile.get? file).getD []).filterMap r.get?

/-- Gives a breakpoint another binding, and its new handle a place in the index. -/
def rebind (r : BreakpointRegistry) (b : Breakpoint) (binding : Binding) : BreakpointRegistry :=
  { r with
    breakpoints := r.breakpoints.put b.id { b with binding }
    byHandle := match binding.handle? with
      | some handle => r.byHandle.put handle b.id
      | none => r.byHandle }

def dropHandle (r : BreakpointRegistry) (b : Breakpoint) : BreakpointRegistry :=
  match b.binding.handle? with
  | some handle => { r with byHandle := r.byHandle.erase handle }
  | none => r

/-- Takes a breakpoint out; its handle is what has to be deactivated. -/
def remove (r : BreakpointRegistry) (b : Breakpoint) : BreakpointRegistry :=
  let r := r.dropHandle b
  { r with breakpoints := r.breakpoints.erase b.id }

/-- Adds a request under the next id. -/
def add (r : BreakpointRegistry) (file : String) (request : BreakpointRequest) :
    UInt32 × BreakpointRegistry :=
  let id := r.lastId + 1
  (id, { r with lastId := id, breakpoints := r.breakpoints.put id (.ofRequest id file request) })

def addAll (r : BreakpointRegistry) (file : String) :
    List BreakpointRequest → List UInt32 × BreakpointRegistry
  | [] => ([], r)
  | request :: rest =>
    let (id, r) := r.add file request
    let (ids, r) := r.addAll file rest
    (id :: ids, r)

/-- Puts a breakpoint at the place that the first of the modules has for it. The flag says whether
the target was asked. -/
def tryBind (symbols : SymbolTable) (modules : List ModuleId) (r : BreakpointRegistry)
    (id : UInt32) : Program nativeEffect (Bool × BreakpointRegistry) :=
  match r.get? id with
  | none => pure (false, r)
  | some b =>
    match modules.findSome? fun m => symbols.resolve? m b.file b.line with
    | none => pure (false, r)
    | some place => do
      match ← (Native.call (.createBreakpoint place.method place.offset)).attempt with
      | .ok handle => pure (true, r.rebind b (.bound place handle))
      | .error e => pure (true, r.rebind b (.failed ("Could not set breakpoint: " ++ e.message)))

/-- Tries each of some breakpoints, and reports the ones for which `report` holds. -/
def bindAll (symbols : SymbolTable) (modules : List ModuleId) (report : Bool → Bool)
    (r : BreakpointRegistry) :
    List UInt32 → Program nativeEffect (List BreakpointInfo × BreakpointRegistry)
  | [] => pure ([], r)
  | id :: rest => do
    let (tried, r) ← r.tryBind symbols modules id
    let own := if report tried then ((r.get? id).map Breakpoint.info).toList else []
    let (infos, r) ← r.bindAll symbols modules report rest
    pure (own ++ infos, r)

/-- A handle that cannot be deactivated is forgotten all the same. -/
def removeAll (r : BreakpointRegistry) :
    List UInt32 → Program nativeEffect BreakpointRegistry
  | [] => pure r
  | id :: rest =>
    match r.get? id with
    | none => r.removeAll rest
    | some b => do
      let r := r.remove b
      match b.binding.handle? with
      | some handle =>
        let _ ← (Native.call (.setBreakpointActive handle false)).attempt
        r.removeAll rest
      | none => r.removeAll rest

/-- Replaces every breakpoint of a file and binds the new ones in the loaded modules. -/
def setBreakpoints (symbols : SymbolTable) (modules : List ModuleId) (file : String)
    (requests : List BreakpointRequest) (r : BreakpointRegistry) :
    Program nativeEffect (List BreakpointInfo × BreakpointRegistry) := do
  let old := (r.byFile.get? file).getD []
  let r ← { r with byFile := r.byFile.erase file }.removeAll old
  let (ids, r) := r.addAll file requests
  let r := { r with byFile := r.byFile.put file ids }
  r.bindAll symbols modules (fun _ => true) ids

/-- Ids of the pending breakpoints, in order. -/
def pendingIds (r : BreakpointRegistry) : List UInt32 :=
  ((r.breakpoints.values.filter fun b => b.binding.isPending).map (·.id)).mergeSort
    fun a b => a ≤ b

/-- Tries the pending breakpoints in a module that was just loaded, and reports those that are not
pending any more. -/
def moduleLoaded (symbols : SymbolTable) (module : ModuleId) (r : BreakpointRegistry) :
    Program nativeEffect (List BreakpointInfo × BreakpointRegistry) :=
  r.bindAll symbols [module] id r.pendingIds

/-- Breakpoints bound in an unloaded module go back to pending; they are reported by id. -/
def moduleUnloaded (module : ModuleId) (r : BreakpointRegistry) :
    List BreakpointInfo × BreakpointRegistry :=
  let affected := (r.breakpoints.values.filter (·.isIn module)).mergeSort fun a b => a.id ≤ b.id
  (affected.map fun b => { b with binding := .pending : Breakpoint }.info,
    affected.foldl (fun r b => (r.dropHandle b).rebind b .pending) r)

/-- Counts a hit whose condition held, and says whether the rule lets the breakpoint stop. -/
def recordHit (id : UInt32) (r : BreakpointRegistry) : Bool × BreakpointRegistry :=
  match r.get? id with
  | none => (false, r)
  | some b =>
    let hits := b.hits + 1
    (b.hitCondition.all (HitCondition.isMet hits),
      { r with breakpoints := r.breakpoints.put id { b with hits } })

end BreakpointRegistry

end ManagedDebugger
