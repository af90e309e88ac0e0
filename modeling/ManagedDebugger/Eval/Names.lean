import ManagedDebugger.Eval.Members
import ManagedDebugger.Eval.Scope
import ManagedDebugger.Expr.Syntax

/-!
What names and chains of names stand for: a value, or a type.
-/

namespace ManagedDebugger

/-- Where an expression is evaluated, and what its names stand for. -/
structure EvalScope where
  context : EvalContext
  frame : FrameScope

/-- A name in a chain of member accesses. -/
structure Segment where
  name : String
  typeArguments : List TypeExpr
  deriving Repr, BEq, Inhabited

def Segment.metadataName (s : Segment) : String := genericName s.name s.typeArguments.length

inductive Resolved where
  | value (v : EvalValue)
  | type (t : TypeRef)
  deriving DecidableEq, Repr, Inhabited

namespace Resolved

def isNull : Resolved → Bool
  | value v => v.isNull
  | type _ => false

/-- A type alone is no value. -/
def toValue : Resolved → Eval EvalValue
  | value v => return v
  | type t => throw (.typeNotValue t.name)

end Resolved

namespace EvalScope

def thread (s : EvalScope) : ThreadId := s.context.thread

def limit (s : EvalScope) : Option Nat := s.context.limit

/-- The type that encloses the method of the frame. -/
def declaringType? (s : EvalScope) : Option TypeRef := s.frame.method.map (·.declaringType)

/-- The first of some modules that has a type of this name. -/
def findTypeIn (name : String) : List ModuleId → Eval (Option TypeRef)
  | [] => return none
  | m :: rest => do
    match ← Eval.native (.findType m name) with
    | some t => return some t
    | none => findTypeIn name rest

def findType (s : EvalScope) (name : String) : Eval (Option TypeRef) :=
  findTypeIn name s.context.modules

/-- The namespaces around one that is given from its end, innermost first. -/
def outerNamespaces : List Char → List String
  | [] => []
  | c :: rest =>
    let here := if c = '.' ∧ rest ≠ [] then [String.ofList rest.reverse] else []
    here ++ outerNamespaces rest

/-- A namespace and those around it, innermost first. -/
def enclosing (ns : String) : List String :=
  if ns.isEmpty then [] else ns :: outerNamespaces ns.toList.reverse

/-- The full names that a dotted path may mean, in the order in which they are tried: as written,
under each imported namespace, under the namespaces around the method, and inside its type. -/
def candidates (s : EvalScope) (path : String) : List String :=
  let own := match s.declaringType? with
    | some t =>
      ((enclosing t.namespace).map fun ns => ns ++ "." ++ path) ++ [t.name ++ "+" ++ path]
    | none => []
  path :: (s.frame.namespaces.map fun ns => ns ++ "." ++ path) ++ own

def firstType (s : EvalScope) : List String → Eval (Option TypeRef)
  | [] => return none
  | name :: rest => do
    match ← s.findType name with
    | some t => return some t
    | none => s.firstType rest

def lookupType (s : EvalScope) (path : String) : Eval (Option TypeRef) :=
  s.firstType (s.candidates path)

def typeArgument (s : EvalScope) (t : TypeExpr) : Eval TypeRef := do
  match ← s.findType t.metadataName with
  | some type => return type
  | none =>
    match ← s.lookupType t.metadataName with
    | some type => return type
    | none => throw (.typeNotFound t.name)

def typeArguments (s : EvalScope) : List TypeExpr → Eval (List TypeRef)
  | [] => return []
  | t :: rest => do
    let type ← s.typeArgument t
    let types ← s.typeArguments rest
    return type :: types

/-- The shortest leading part of a chain that names a type, and how much of the chain it is. -/
def leadingType (s : EvalScope) (path : List String) :
    List Segment → Eval (Option (TypeRef × List Segment))
  | [] => return none
  | segment :: rest => do
    let path := path ++ [segment.metadataName]
    match ← s.lookupType (".".intercalate path) with
    | some t => return some (t, rest)
    | none => s.leadingType path rest

/-- A variable, a member of the receiver, or a static member of the enclosing type. -/
def variableOf (s : EvalScope) (name : String) : Eval (Option (RemoteValue × Bool)) := do
  if let some v := s.frame.variable? name then return some (v, true)
  if let some this := s.frame.this then
    if let some found ← instanceMember s.limit s.thread this name then return some found
  if let some type := s.declaringType? then
    if let some found ← staticMember s.limit s.thread type name then return some found
  return none

/-- What the head of a chain stands for, whether it is a place, and the rest of the chain. -/
def head (s : EvalScope) (first : Segment) (rest : List Segment) :
    Eval (Resolved × Bool × List Segment) := do
  if first.typeArguments.isEmpty then
    if let some (v, editable) ← s.variableOf first.name then
      return (.value (.remote v), editable, rest)
  match ← s.leadingType [] (first :: rest) with
  | some (t, rest) => return (.type t, false, rest)
  | none => throw (.nameNotFound first.name)

/-- Members that arrays and strings have without a declaration. -/
def builtinMember (v : RemoteValue) (name : String) : Eval (Option Primitive) := do
  match v.kind with
  | .array =>
    if name = "Length" ∨ name = "LongLength" ∨ name = "Rank" then do
      let dims ← Eval.native (.arrayDimensions v)
      let total := dims.foldl (fun n d => n * d.toUInt64) 1
      return some (match name with
        | "Length" => .i32 total.toUInt32.toInt32
        | "LongLength" => .i64 total.toInt64
        | _ => .i32 (Int32.ofNat dims.length))
    else return none
  | .string =>
    if name = "Length" then do
      let text ← Eval.native (.readString v)
      return some (.i32 (Int32.ofNat (Text.units text).length))
    else return none
  | _ => return none

def memberOfType (s : EvalScope) (type : TypeRef) (segment : Segment) :
    Eval (Resolved × Bool) := do
  if segment.typeArguments.isEmpty then
    if let some (v, editable) ← staticMember s.limit s.thread type segment.name then
      return (.value (.remote v), editable)
  match ← s.findType (type.name ++ "+" ++ segment.metadataName) with
  | some inner => return (.type inner, false)
  | none => throw (.noStaticMember type.name segment.name)

def memberOfRemote (s : EvalScope) (v : RemoteValue) (name : String) :
    Eval (Resolved × Bool) := do
  if let some p ← builtinMember v name then return (.value (.primitive p), false)
  match ← instanceMember s.limit s.thread v name with
  | some (found, editable) => return (.value (.remote found), editable)
  | none => throw (.noMember v.typeName name)

def member (s : EvalScope) (target : Resolved) (segment : Segment) : Eval (Resolved × Bool) :=
  match target with
  | .type t => s.memberOfType t segment
  | .value .null => throw .nullReference
  | .value .void => throw .voidNotValue
  | .value (.primitive p) => throw (.noMember p.type.runtimeName segment.name)
  | .value (.remote v) =>
    if v.isNull then throw .nullReference else s.memberOfRemote v segment.name

/-- Takes one member after the other; the flag belongs to the last one. -/
def members (s : EvalScope) (target : Resolved) (editable : Bool) :
    List Segment → Eval (Resolved × Bool)
  | [] => return (target, editable)
  | segment :: rest => do
    let (target, editable) ← s.member target segment
    s.members target editable rest

end EvalScope

end ManagedDebugger
