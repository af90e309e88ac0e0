import ManagedDebugger.Expr.Code

/-!
# What is emitted for which construct

A construct has its place in the syntax tree, and the program of a tree has the operations of every
construct in it, each of them once. The operations of a construct come after those of its parts; only
a conditional access comes right after what it accesses.
-/

namespace ManagedDebugger.Expr

/-- Where a construct stands in a tree: which part to go to, level by level. -/
abbrev Place := List Nat

/-- An operation, and where the construct stands that it is emitted for. -/
structure Emission where
  place : Place
  operation : Operation

namespace Emission

/-- The same emission, seen from one level further up. -/
def under (i : Nat) (s : Emission) : Emission := ⟨i :: s.place, s.operation⟩

/-- Emissions for the root. -/
def atRoot (operations : List Operation) : List Emission := operations.map (⟨[], ·⟩)

/-- The operations that are emitted for the construct at a place, in order. -/
def operationsAt (emissions : List Emission) (place : Place) : List Operation :=
  emissions.filterMap fun s => if s.place = place then some s.operation else none

end Emission

/-! ## Places in a tree -/

def holesOf (pieces : List (Piece Expr)) : List Expr :=
  pieces.filterMap fun
    | .text _ => none
    | .hole e => some e

/-- What a construct is made of, in the order of the text. -/
def parts : Expr → List Expr
  | literal _ | identifier _ | generic .. | this | predefined _ | sizeOf _ | unsupported _ => []
  | member target .. => [target]
  | element target indices _ => target :: indices
  | invocation target arguments => target :: arguments
  | unary _ operand => [operand]
  | binary _ left right => [left, right]
  | .checked _ body => [body]
  | interpolated pieces => holesOf pieces

def at? : Expr → Place → Option Expr
  | e, [] => some e
  | e, i :: place =>
    match e.parts[i]? with
    | some part => part.at? place
    | none => none

/-! ## What is emitted for which construct -/

def conditionalOperations (conditional : Bool) : List Operation :=
  if conditional then [.conditionalAccess] else []

/-- The operations for a construct itself. -/
def operations : Expr → List Operation
  | literal l => [.literal l]
  | identifier name => [.name name []]
  | generic name arguments => [.name name arguments]
  | this => [.this]
  | predefined runtimeName => [.predefined runtimeName]
  | member _ name arguments conditional =>
    conditionalOperations conditional ++ [.name name (arguments.getD []), .memberAccess]
  | element _ indices conditional =>
    conditionalOperations conditional ++ [.elementAccess indices.length]
  | invocation _ arguments => [.invocation arguments.length]
  | unary op _ => [.unary op]
  | binary op .. => [.binary op]
  | .checked .. | unsupported _ => []
  | sizeOf type => [.sizeOf type]
  | interpolated pieces => [.interpolate (pieces.map Piece.erase)]

mutual

/-- The emissions for a tree, in the order of the program. -/
def emissions : Expr → List Emission
  | literal l => Emission.atRoot [.literal l]
  | identifier name => Emission.atRoot [.name name []]
  | generic name arguments => Emission.atRoot [.name name arguments]
  | this => Emission.atRoot [.this]
  | predefined runtimeName => Emission.atRoot [.predefined runtimeName]
  | member target name arguments conditional =>
    target.emissions.map (.under 0) ++ Emission.atRoot (conditionalOperations conditional) ++
      Emission.atRoot [.name name (arguments.getD []), .memberAccess]
  | element target indices conditional =>
    target.emissions.map (.under 0) ++ Emission.atRoot (conditionalOperations conditional) ++
      emissionsAll 1 indices ++ Emission.atRoot [.elementAccess indices.length]
  | invocation target arguments =>
    target.emissions.map (.under 0) ++ emissionsAll 1 arguments ++
      Emission.atRoot [.invocation arguments.length]
  | unary op operand => operand.emissions.map (.under 0) ++ Emission.atRoot [.unary op]
  | binary op left right =>
    left.emissions.map (.under 0) ++ right.emissions.map (.under 1) ++ Emission.atRoot [.binary op]
  | .checked _ body => body.emissions.map (.under 0)
  | sizeOf type => Emission.atRoot [.sizeOf type]
  | interpolated pieces =>
    emissionsOfHoles 0 pieces ++ Emission.atRoot [.interpolate (pieces.map Piece.erase)]
  | unsupported _ => []

/-- The emissions for parts that stand one behind the other. -/
def emissionsAll (first : Nat) : List Expr → List Emission
  | [] => []
  | e :: rest => e.emissions.map (.under first) ++ emissionsAll (first + 1) rest

def emissionsOfHoles (first : Nat) : List (Piece Expr) → List Emission
  | [] => []
  | .text _ :: rest => emissionsOfHoles first rest
  | .hole e :: rest => e.emissions.map (.under first) ++ emissionsOfHoles (first + 1) rest

end

theorem emissionsOfHoles_eq (first : Nat) (pieces : List (Piece Expr)) :
    emissionsOfHoles first pieces = emissionsAll first (holesOf pieces) := by
  induction pieces generalizing first with
  | nil => rfl
  | cons piece rest inductionHypothesis =>
      cases piece with
      | text t => exact inductionHypothesis first
      | hole e => exact congrArg (_ ++ ·) (inductionHypothesis (first + 1))

/-! ## Every construct gets its own operations -/

section Census

open Emission

variable {place : Place} {i : Nat}

@[simp] theorem operationsAt_nil (place : Place) : operationsAt [] place = [] := rfl

@[simp] theorem operationsAt_append (xs ys : List Emission) (place : Place) :
    operationsAt (xs ++ ys) place = operationsAt xs place ++ operationsAt ys place :=
  List.filterMap_append

@[simp] theorem operationsAt_root_nil (operations : List Operation) :
    operationsAt (atRoot operations) [] = operations := by
  induction operations with
  | nil => rfl
  | cons op rest inductionHypothesis => exact congrArg (op :: ·) inductionHypothesis

@[simp] theorem operationsAt_root_cons (operations : List Operation) :
    operationsAt (atRoot operations) (i :: place) = [] := by
  induction operations with
  | nil => rfl
  | cons op rest inductionHypothesis => exact inductionHypothesis

@[simp] theorem operationsAt_under_nil (i : Nat) (ss : List Emission) :
    operationsAt (ss.map (.under i)) [] = [] := by
  induction ss with
  | nil => rfl
  | cons s rest inductionHypothesis => exact inductionHypothesis

theorem operationsAt_under_self (ss : List Emission) :
    operationsAt (ss.map (.under i)) (i :: place) = operationsAt ss place := by
  simp only [operationsAt, List.filterMap_map]
  congr 1
  funext s
  simp [under]

theorem operationsAt_under_other {j : Nat} (other : j ≠ i) (ss : List Emission) :
    operationsAt (ss.map (.under j)) (i :: place) = [] := by
  simp [operationsAt, under, other]

@[simp] theorem operationsAt_all_nil (first : Nat) (es : List Expr) :
    operationsAt (emissionsAll first es) [] = [] := by
  induction es generalizing first with
  | nil => rfl
  | cons e rest inductionHypothesis =>
      rw [emissionsAll, operationsAt_append, operationsAt_under_nil, inductionHypothesis]
      rfl

theorem operationsAt_all_before {first : Nat} (before : i < first) (es : List Expr) :
    operationsAt (emissionsAll first es) (i :: place) = [] := by
  induction es generalizing first with
  | nil => rfl
  | cons e rest inductionHypothesis =>
      rw [emissionsAll, operationsAt_append, operationsAt_under_other (Nat.ne_of_gt before),
        inductionHypothesis (Nat.lt_succ_of_lt before)]
      rfl

/-- The operations for a place in one of the parts of a construct. -/
def operationsIn (part? : Option Expr) (place : Place) : List Operation :=
  match part? with
  | some part => operationsAt part.emissions place
  | none => []

theorem operationsAt_all (first : Nat) (es : List Expr) :
    operationsAt (emissionsAll first es) ((first + i) :: place) = operationsIn es[i]? place := by
  induction es generalizing first i with
  | nil => rfl
  | cons e rest inductionHypothesis =>
      rw [emissionsAll, operationsAt_append]
      cases i with
      | zero =>
          rw [Nat.add_zero, operationsAt_under_self,
            operationsAt_all_before (Nat.lt_succ_self first), List.append_nil]
          rfl
      | succ i =>
          have other : first ≠ first + (i + 1) := by omega
          rw [operationsAt_under_other other, List.nil_append,
            show first + (i + 1) = first + 1 + i by omega, inductionHypothesis]
          rfl

theorem operationsAt_emissions_nil (e : Expr) : operationsAt e.emissions [] = e.operations := by
  cases e <;> simp [emissions, operations, emissionsOfHoles_eq]

theorem operationsAt_emissions_cons (e : Expr) (i : Nat) (place : Place) :
    operationsAt e.emissions (i :: place) = operationsIn e.parts[i]? place := by
  -- What is emitted for the construct itself stands between its parts, but at no place in them.
  have ofParts : operationsAt e.emissions (i :: place) =
      operationsAt (emissionsAll 0 e.parts) (i :: place) := by
    cases e <;> simp [emissions, parts, emissionsAll, emissionsOfHoles_eq]
  have inPart : operationsAt (emissionsAll 0 e.parts) ((0 + i) :: place) =
      operationsIn e.parts[i]? place := operationsAt_all 0 e.parts
  rw [Nat.zero_add] at inPart
  exact ofParts.trans inPart

/-- For every place of a tree, the program has the operations of the construct there, in order, and
for no other places. -/
theorem operationsAt_emissions (e : Expr) (place : Place) :
    operationsAt e.emissions place =
      match e.at? place with
      | some construct => construct.operations
      | none => [] := by
  induction place generalizing e with
  | nil => exact operationsAt_emissions_nil e
  | cons i place inductionHypothesis =>
      rw [operationsAt_emissions_cons, at?]
      cases e.parts[i]? with
      | some part => exact inductionHypothesis part
      | none => rfl

end Census

end ManagedDebugger.Expr
