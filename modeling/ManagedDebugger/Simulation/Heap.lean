import ManagedDebugger.Error
import ManagedDebugger.Keyed
import ManagedDebugger.Value.Tagged

/-!
The memory of a simulated process: numbered cells, counted from one.
-/

namespace ManagedDebugger.Simulation

inductive Content where
  | primitive (p : Primitive)
  | text (s : String)
  | fields (fields : Keyed String RemoteValue)
  | elements (dims : List UInt32) (items : List RemoteValue)
  | boxed (inner : RemoteValue)
  | null
  /-- A value with a kind but without anything in it. -/
  | nothing
  deriving Repr, Inhabited

structure Cell where
  content : Content
  typeName : String
  label : Option String
  address : UInt64
  deriving Repr, Inhabited

structure Heap where
  cells : Array Cell
  /-- The values by the labels under which they were made. -/
  labels : Keyed String RemoteValue

namespace Heap

def empty : Heap := ⟨#[], []⟩

def cell? (h : Heap) (v : RemoteValue) : Option Cell :=
  match v.id.number.toNat with
  | 0 => none
  | n + 1 => h.cells[n]?

def content? (h : Heap) (v : RemoteValue) : Option Content := (h.cell? v).map (·.content)

def push (h : Heap) (kind : ValueKind) (cell : Cell) : RemoteValue × Heap :=
  (⟨⟨(h.cells.size + 1).toUInt64⟩, kind, cell.typeName⟩, { h with cells := h.cells.push cell })

/-- Adds a value at an address of its own. -/
def add (content : Content) (kind : ValueKind) (typeName : String) (label : Option String) :
    StateM Heap RemoteValue := do
  let h ← get
  let address := (0x1000 + (h.cells.size + 1) * 0x10).toUInt64
  let (v, h) := h.push kind ⟨content, typeName, label, address⟩
  set (match label with
    | some l => { h with labels := h.labels.put l v }
    | none => h)
  return v

/-- Adds a second cell for a value, with the address of the first. -/
def copy? (h : Heap) (v : RemoteValue) : Option (RemoteValue × Heap) :=
  (h.cell? v).map fun cell => h.push v.kind { cell with typeName := v.typeName }

def primitive (p : Primitive) (label : Option String := none) : StateM Heap RemoteValue :=
  add (.primitive p) (.primitive p.type) p.type.runtimeName label

def text (s : String) (label : Option String := none) : StateM Heap RemoteValue :=
  add (.text s) .string "System.String" label

def null (typeName : String) (label : Option String := none) : StateM Heap RemoteValue :=
  add .null .nullReference typeName label

def object (typeName : String) (fields : List (String × RemoteValue))
    (label : Option String := none) : StateM Heap RemoteValue :=
  add (.fields (fields.foldl (fun all (name, v) => all.put name v) [])) .object typeName label

def array (typeName : String) (dims : List UInt32) (items : List RemoteValue)
    (label : Option String := none) : StateM Heap RemoteValue :=
  add (.elements dims items) .array typeName label

def boxed (typeName : String) (inner : RemoteValue) (label : Option String := none) :
    StateM Heap RemoteValue :=
  add (.boxed inner) .boxed typeName label

def primitive? (h : Heap) (v : RemoteValue) : Option Primitive :=
  match h.content? v with
  | some (.primitive p) => some p
  | _ => none

def text? (h : Heap) (v : RemoteValue) : Option String :=
  match h.content? v with
  | some (.text s) => some s
  | _ => none

def inner? (h : Heap) (v : RemoteValue) : Option RemoteValue :=
  match h.content? v with
  | some (.boxed inner) => some inner
  | _ => none

def dims? (h : Heap) (v : RemoteValue) : Option (List UInt32) :=
  match h.content? v with
  | some (.elements dims _) => some dims
  | _ => none

def field? (h : Heap) (v : RemoteValue) (name : String) : Option RemoteValue :=
  match h.content? v with
  | some (.fields fields) => fields.get? name
  | _ => none

/-- The element at a position in row-major order. -/
def element (h : Heap) (v : RemoteValue) (indices : List UInt32) :
    Except NativeError RemoteValue :=
  match h.content? v with
  | some (.elements dims items) =>
    let position := (indices.zip dims).foldl (fun n (i, d) => n * d.toNat + i.toNat) 0
    match items[position]? with
    | some item => .ok item
    | none => .error (.protocol "index out of range")
  | _ => .error (.protocol "not an array")

/-- Only objects have fields to set. -/
def setField (h : Heap) (v : RemoteValue) (name : String) (value : RemoteValue) : Heap :=
  match v.id.number.toNat, h.cell? v with
  | n + 1, some cell =>
    match cell.content with
    | .fields fields =>
      let cell := { cell with content := .fields (fields.put name value) }
      { h with cells := h.cells.set! n cell }
    | _ => h
  | _, _ => h

/-- A value in words; a box shows what is in it. -/
def describe (h : Heap) (v : RemoteValue) : String :=
  go (h.cells.size + 1) v
where
  go : Nat → RemoteValue → String
    | 0, _ => ""
    | depth + 1, v =>
      match h.cell? v with
      | none => "dangling"
      | some cell =>
        let label := match cell.label with
          | some l => "#" ++ l
          | none => ""
        match cell.content with
        | .primitive p => p.tagged
        | .text s => "str:" ++ s
        | .fields _ => "obj:" ++ cell.typeName ++ label
        | .elements dims _ =>
          "arr:" ++ cell.typeName ++ toString (dims.map UInt32.toNat) ++ label
        | .boxed inner => "box:" ++ go depth inner
        | .null => "null:" ++ cell.typeName
        | .nothing => "bad:" ++ cell.typeName

end Heap

end ManagedDebugger.Simulation
