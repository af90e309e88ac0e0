import ManagedDebugger.Simulation.Process

/-!
Mock targets: simulated processes whose methods are functions over the heap, and which keep count of
what was asked of them. Every mock has the core types that every program sees.
-/

namespace ManagedDebugger.Simulation

/-- The result of a call, if it has one, or the exception that it throws. -/
abbrev BehaviorResult := Except RemoteValue (Option RemoteValue)

/-- What a method does with its arguments. One that lacks an argument that it needs does not come to
an end. -/
abbrev Behavior := List RemoteValue → OptionT (StateM Heap) BehaviorResult

inductive MockWork where
  | call (method : MethodRef) (arguments : List RemoteValue)
  | text (s : String)

structure MockBreakpoint where
  method : MethodRef
  offset : UInt32
  isActive : Bool

structure Mock where
  process : Process
  /-- A type that is defined again takes the place of the first. -/
  types : Keyed String TypeInfo
  methods : Keyed MethodRef MethodInfo
  behaviors : Keyed MethodRef Behavior
  /-- Values of static fields, by type and field. -/
  statics : Keyed (String × String) RemoteValue
  /-- Types, fields and methods count on together. -/
  lastToken : UInt32
  breakpoints : Keyed NativeBreakpointId MockBreakpoint
  pending : List (EvalId × ThreadId × MockWork)
  steps : List (ThreadId × StepMode)
  cancelled : List ThreadId
  /-- Names of the methods that were called. -/
  calls : List String
  evals : Nat
  continues : Nat
  stops : Nat
  /-- Handles that were made and not released. -/
  live : List ValueId
  released : Nat
  /-- How many callers were left without an answer. The first one made a method run that did not come
  to an end, and the others asked the mock something after that. -/
  lostCallers : Nat

namespace Mock

abbrev Building := StateM Mock

def bare : Mock := ⟨.empty, [], [], [], [], 0, [], [], [], [], [], 0, 0, 0, [], 0, 0⟩

def appModule : ModuleId := 1

def coreModule : ModuleId := 2

def onHeap {α : Type} (work : StateM Heap α) : Building α := fun m =>
  let (a, heap) := work m.process.heap
  (a, { m with process := { m.process with heap } })

def typeNamed (m : Mock) (name : String) : TypeRef :=
  match m.types.get? name with
  | some info => info.type
  | none => ⟨coreModule, 0, name⟩

def nextToken (kind : UInt32) : Building Token := do
  let n := (← get).lastToken + 1
  modify fun m => { m with lastToken := n }
  return kind + n

def defineType (module : ModuleId) (name : String) (base : Option String) : Building TypeRef := do
  let type : TypeRef := ⟨module, ← nextToken 0x02000000, name⟩
  modify fun m =>
    let info : TypeInfo :=
      ⟨type, base.map m.typeNamed, base == some "System.ValueType", [], [], []⟩
    { m with types := m.types.put name info }
  return type

/-- A type of this name was defined. -/
def hasType (m : Mock) (name : String) : Bool := (m.types.get? name).isSome

def updateType (name : String) (f : TypeInfo → TypeInfo) : Building Unit := modify fun m =>
  match m.types.get? name with
  | some info => { m with types := m.types.put name (f info) }
  | none => m

def addField (type name fieldType : String) (isStatic : Bool) : Building Unit := do
  let token ← nextToken 0x04000000
  updateType type fun t => { t with fields := t.fields ++ [⟨token, name, fieldType, isStatic⟩] }

def setStatic (type field : String) (v : RemoteValue) : Building Unit :=
  modify fun m => { m with statics := m.statics.put (type, field) v }

def addMethod (type name : String) (parameters : List String) (isStatic : Bool)
    (behavior : Option Behavior) : Building MethodRef := do
  let token ← nextToken 0x06000000
  let declaringType := (← get).typeNamed type
  let method : MethodRef := ⟨declaringType.module, token⟩
  let info : MethodInfo :=
    { method, name, declaringType, isStatic
      parameters := parameters.mapIdx fun i t => ⟨"arg" ++ toString i, t⟩
      genericArity := 0, returnType := "System.Object", nonUserCode := false }
  updateType type fun t => { t with methods := t.methods ++ [info] }
  modify fun m => { m with methods := m.methods.put method info }
  if let some b := behavior then
    modify fun m => { m with behaviors := m.behaviors.put method b }
  return method

/-- An instance property; the answer is its getter. -/
def addProperty (type name propertyType : String) (behavior : Option Behavior) :
    Building MethodRef := do
  let getter ← addMethod type ("get_" ++ name) [] false behavior
  updateType type fun t =>
    { t with properties := t.properties ++ [⟨name, propertyType, some getter, false⟩] }
  return getter

def markNonUserCode (method : MethodRef) : Building Unit := modify fun m =>
  match m.methods.get? method with
  | some info => { m with methods := m.methods.put method { info with nonUserCode := true } }
  | none => m

def setSymbols (module : ModuleId) (symbols : ModuleSymbols) : Building Unit := modify fun m =>
  { m with process := { m.process with symbols := m.process.symbols.put module symbols } }

/-- Gives a thread a call stack, innermost frame first. -/
def setFrames (thread : ThreadId) (frames : List Frame) : Building Unit := modify fun m =>
  let name := "Worker " ++ toString thread.toNat
  { m with process := m.process.setFrames thread (some name) frames }

/-- One sequence point for every offset and line. -/
def methodSymbols (token : Token) (document : String) (points : List (UInt32 × UInt32)) :
    MethodSymbols :=
  { token, document
    codeSize := match points.getLast? with
      | some (offset, _) => offset + 10
      | none => 0
    sequencePoints := points.map fun (offset, line) => ⟨offset, line, line, 9, 30⟩
    asyncInfo := none
    locals := []
    importedNamespaces := [] }

/-- A method did not come to an end, and the mock answers nothing any more. -/
def isDown (m : Mock) : Bool := 0 < m.lostCallers

def isActive (m : Mock) (b : NativeBreakpointId) : Bool :=
  ((m.breakpoints.get? b).map (·.isActive)).getD false

/-- The active breakpoint at a place, if there is one. -/
def breakpointAt? (m : Mock) (method : MethodRef) (offset : UInt32) : Option NativeBreakpointId :=
  (m.breakpoints.find? fun (_, b) => b.method == method && b.offset == offset && b.isActive).map
    (·.1)

/-! What the core types do. -/

def argument (arguments : List RemoteValue) (i : Nat) : OptionT (StateM Heap) RemoteValue :=
  OptionT.mk (return arguments[i]?)

/-- Throws an exception for arguments that a method does not take. -/
def invalidOperation : OptionT (StateM Heap) BehaviorResult := do
  return .error (← Heap.object "System.InvalidOperationException" [])

def nameOfType : Behavior := fun arguments => do
  let v ← argument arguments 0
  return .ok (some (← Heap.text v.typeName))

def sameText : Behavior := fun arguments => do
  let a ← argument arguments 0
  let b ← argument arguments 1
  let h ← get
  let same := h.text? a == h.text? b
  return .ok (some (← Heap.primitive (.bool same)))

/-- A function of the integers at two places of the arguments. -/
def onInts (i j : Nat) (f : Int32 → Int32 → Int32) : Behavior := fun arguments => do
  let v ← argument arguments i
  let w ← argument arguments j
  let h ← get
  match h.primitive? v, h.primitive? w with
  | some (.i32 a), some (.i32 b) => return .ok (some (← Heap.primitive (.i32 (f a b))))
  | _, _ => invalidOperation

def addCoreTypes : Building Unit := do
  let core (name : String) (base : Option String) : Building Unit := do
    let _ ← defineType coreModule name base
  core "System.Object" none
  core "System.ValueType" (some "System.Object")
  core "System.String" (some "System.Object")
  core "System.Array" (some "System.Object")
  core "System.Math" (some "System.Object")
  core "System.InvalidOperationException" (some "System.Object")
  ElementType.all.forM fun t => core t.runtimeName (some "System.ValueType")
  let _ ← addMethod "System.Object" "ToString" [] false (some nameOfType)
  let _ ← addMethod "System.String" "op_Equality" ["System.String", "System.String"] true
    (some sameText)
  let _ ← addMethod "System.Math" "Max" ["System.Int32", "System.Int32"] true
    (some (onInts 0 1 max))

def new : Mock := (addCoreTypes.run bare).2

/-! Answers to calls. -/

def onProcess {α : Type} (r : Reaction Process α) : Reaction Mock α :=
  r.onProcess (·.process) (fun m process => { m with process })

def methodText (m : MethodRef) : String :=
  "MethodRef \x7b module: ModuleId(" ++ toString m.module.toNat ++ "), token: " ++
    toString m.token.toNat ++ " \x7d"

def runPending : EvalId × ThreadId × MockWork → OptionT Building NativeEvent
  | (eval, thread, .text s) => do
    let v ← OptionT.lift (onHeap (Heap.text s))
    return .evalComplete thread eval (some v)
  | (eval, thread, .call method arguments) => do
    match (← get).behaviors.get? method with
    | none => return .evalComplete thread eval none
    | some behavior =>
      match ← OptionT.mk (onHeap (behavior arguments).run) with
      | .ok result => return .evalComplete thread eval result
      | .error exception => return .evalException thread eval exception

/-- Runs all queued evaluations, in order, if each comes to an end. -/
def runAll : OptionT Building (List NativeEvent) := do
  let pending := (← get).pending
  modify fun m => { m with pending := [] }
  pending.mapM runPending

def begin (thread : ThreadId) (work : MockWork) : Reaction Mock EvalId := do
  let eval ← onProcess Process.nextEval
  modify fun m => { m with evals := m.evals + 1, pending := m.pending ++ [(eval, thread, work)] }
  return eval

def react : (call : NativeCall) → Reaction Mock call.Answer
  | .launch _ => return 4242
  | .attach _ | .detach | .terminate => return ()
  | .continueProcess => modify fun m => { m with continues := m.continues + 1 }
  | .stopProcess => modify fun m => { m with stops := m.stops + 1 }
  | .createBreakpoint method offset => do
    let b ← onProcess Process.nextBreakpoint
    modify fun m => { m with breakpoints := m.breakpoints.put b ⟨method, offset, true⟩ }
    return b
  | .setBreakpointActive b isActive => do
    let place ← orRefuse ("no breakpoint NativeBreakpointId(" ++ toString b.number.toNat ++ ")")
      ((← get).breakpoints.get? b)
    modify fun m => { m with breakpoints := m.breakpoints.put b { place with isActive } }
  | .step thread mode => modify fun m => { m with steps := m.steps ++ [(thread, mode)] }
  | .cancelStep thread => modify fun m => { m with cancelled := m.cancelled ++ [thread] }
  | .methodInfo method => do
    orRefuse ("unknown method " ++ methodText method) ((← get).methods.get? method)
  | .objectAddress v => do
    match (← get).process.heap.cell? v with
    | some ⟨.fields _, _, _, address⟩ => return address
    | _ => return v.id.number
  | .typeOf v => return (← get).typeNamed v.typeName
  | .typeInfo type => do
    let m ← get
    match m.types.get? type.name with
    | some info => return info
    | none =>
      if type.name.endsWith "]" then
        return ⟨type, some (m.typeNamed "System.Array"), false, [], [], []⟩
      else refuse ("unknown type " ++ type.name)
  | .findType module name =>
    return (((← get).types.get? name).filter (·.type.module == module)).map (·.type)
  | .staticFieldValue _ type field => do
    orRefuse ("no static " ++ field.name) ((← get).statics.get? (type.name, field.name))
  | .beginCall thread method _ arguments => do
    let info ← orRefuse ("unknown method " ++ methodText method) ((← get).methods.get? method)
    modify fun m => { m with calls := m.calls ++ [info.name] }
    begin thread (.call method arguments)
  | .beginString thread text => begin thread (.text text)
  | .abortEval eval => modify fun m => { m with pending := m.pending.filter (·.1 != eval) }
  | .createHandle v => do
    let handle ← onProcess (Process.inspect (.createHandle v))
    modify fun m => { m with live := m.live ++ [handle.id] }
    return handle
  | .releaseHandle v => modify fun m =>
    if m.live.contains v.id then
      { m with live := m.live.filter (· != v.id), released := m.released + 1 }
    else m
  | call => onProcess (Process.inspect call)

/-- Calls about the process as a whole, which need no look at it. -/
def isBlind : NativeCall → Bool
  | .launch _ | .attach _ | .detach | .terminate => true
  | _ => false

/-- A caller without an answer. -/
def lose (call : NativeCall) (m : Mock) : call.Reply × List NativeEvent × Mock :=
  (.error .connectionClosed, [], { m with lostCallers := m.lostCallers + 1 })

/-- The reply to a call, with the notifications that it raises. -/
def answer (call : NativeCall) (m : Mock) : call.Reply × List NativeEvent × Mock :=
  if m.isDown && !isBlind call then lose call m
  else
    let (reply, m) := (react call).run m
    match call with
    | .continueProcess =>
      match runAll.run m with
      | (some events, m) => (reply, events, m)
      | (none, m) => lose .continueProcess m
    | _ => (reply, [], m)

def backend : Backend Mock := ⟨answer, false⟩

end Mock

end ManagedDebugger.Simulation
