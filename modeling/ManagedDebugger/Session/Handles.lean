import ManagedDebugger.Keyed
import ManagedDebugger.Value.Remote

/-!
Numbers handed to the front end for frames and for what can be expanded. They are good for the current
stop: every resume empties the table, and no number is given out twice.
-/

namespace ManagedDebugger

/-- What the children of a reference are the children of. -/
inductive Expandable where
  /-- The arguments and locals of the frame. -/
  | frame
  | value (value : RemoteValue)
  /-- The static members of a type. -/
  | statics (type : TypeRef)
  deriving DecidableEq, Repr, Inhabited

structure VariablesReference where
  target : Expandable
  thread : ThreadId
  depth : UInt32
  /-- An expression for the value; empty if there is none. -/
  evaluateName : String
  deriving DecidableEq, Repr, Inhabited

structure FrameHandle where
  thread : ThreadId
  depth : UInt32
  deriving DecidableEq, Repr, Inhabited

structure HandleTable where
  last : Int
  references : Keyed Int VariablesReference
  frames : Keyed Int FrameHandle
  frameIds : Keyed FrameHandle Int
  deriving Repr

namespace HandleTable

def empty : HandleTable := ⟨0, [], [], []⟩

def addReference (t : HandleTable) (r : VariablesReference) : Int × HandleTable :=
  let id := t.last + 1
  (id, { t with last := id, references := t.references.put id r })

def reference? (t : HandleTable) (id : Int) : Option VariablesReference := t.references.get? id

/-- One frame keeps its number until the table is cleared. -/
def addFrame (t : HandleTable) (f : FrameHandle) : Int × HandleTable :=
  match t.frameIds.get? f with
  | some id => (id, t)
  | none =>
    let id := t.last + 1
    (id, { t with last := id, frames := t.frames.put id f, frameIds := t.frameIds.put f id })

def frame? (t : HandleTable) (id : Int) : Option FrameHandle := t.frames.get? id

/-- Numbers go on from where they were. -/
def clear (t : HandleTable) : HandleTable :=
  { t with references := [], frames := [], frameIds := [] }

def isEmpty (t : HandleTable) : Bool := t.references.isEmpty && t.frames.isEmpty

end HandleTable

end ManagedDebugger
