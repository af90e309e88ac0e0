import ManagedDebugger.Json.Token

/-!
Reading JSON text: one pass over the tokens, with the containers that are still open on a stack.
-/

namespace ManagedDebugger.Json

/-- An open container, with the items or members read so far, the last one first. -/
inductive Frame where
  | arr (done : List Json)
  | obj (done : List (String × Json)) (name : String)

/-- What the next token has to be. -/
inductive Awaited where
  | value
  | valueOrClose
  | name (done : List (String × Json)) (mayClose : Bool)
  | colon (done : List (String × Json)) (name : String)
  | commaOrClose
  | nothing (result : Json)

structure ReaderState where
  stack : List Frame
  awaited : Awaited

/-- A value nests at most this many containers. -/
def maxDepth : Nat := 127

def ReaderState.start : ReaderState := ⟨[], .value⟩

/-- The members of an object whose members were read in the order of `done`, the last one first. Of
several with one name the last one counts. -/
def membersOf (done : List (String × Json)) : List (String × Json) :=
  done.foldl (fun kept m => if kept.any (·.1 == m.1) then kept else m :: kept) []

/-- A finished value goes into the innermost open container. -/
def ReaderState.put (stack : List Frame) (j : Json) : ReaderState :=
  match stack with
  | [] => ⟨[], .nothing j⟩
  | .arr done :: rest => ⟨.arr (j :: done) :: rest, .commaOrClose⟩
  | .obj done name :: rest => ⟨.obj ((name, j) :: done) name :: rest, .commaOrClose⟩

def ReaderState.value? (stack : List Frame) : Token → Option ReaderState
  | .atom j => some (.put stack j)
  | .str s => some (.put stack (.str s))
  | .openArr => if stack.length < maxDepth then some ⟨.arr [] :: stack, .valueOrClose⟩ else none
  | .openObj => if stack.length < maxDepth then some ⟨stack, .name [] true⟩ else none
  | _ => none

def ReaderState.step (s : ReaderState) (t : Token) : Option ReaderState :=
  match s.awaited, t, s.stack with
  | .nothing _, _, _ => none
  | .value, t, stack => value? stack t
  | .valueOrClose, .closeArr, _ :: stack => some (.put stack (.arr []))
  | .valueOrClose, t, stack => value? stack t
  | .name done _, .str name, stack => some ⟨stack, .colon done name⟩
  | .name done true, .closeObj, stack => some (.put stack (.obj (membersOf done)))
  | .name .., _, _ => none
  | .colon done name, .colon, stack => some ⟨.obj done name :: stack, .value⟩
  | .colon .., _, _ => none
  | .commaOrClose, .comma, .arr done :: stack => some ⟨.arr done :: stack, .value⟩
  | .commaOrClose, .closeArr, .arr done :: stack => some (.put stack (.arr done.reverse))
  | .commaOrClose, .comma, .obj done _ :: stack => some ⟨stack, .name done false⟩
  | .commaOrClose, .closeObj, .obj done _ :: stack => some (.put stack (.obj (membersOf done)))
  | .commaOrClose, _, _ => none

def parse? (s : String) : Option Json := do
  let tokens ← tokens? s.toList
  match (← tokens.foldlM ReaderState.step .start).awaited with
  | .nothing j => some j
  | _ => none

end ManagedDebugger.Json
