import ManagedDebugger.Expr.Code

/-!
# One setting, put back behind every wrapper

The program of a tree can also be emitted instruction by instruction, with a single setting that a
`checked` or `unchecked` changes for what is in its brackets and puts back behind them. It is the
same program, and the setting is in the end what it was, also where the tree is refused.
-/

namespace ManagedDebugger

/-- What has been emitted, and the setting that the next instruction gets. -/
structure Emitter where
  emitted : Code
  checked : Bool

/-- A piece of work of an emitter. It may end with a refusal. -/
abbrev Emit := EStateM EvalError Emitter Unit

namespace Emit

def emit (op : Operation) : Emit :=
  modify fun s => { s with emitted := s.emitted ++ [⟨op, s.checked⟩] }

def require : Except EvalError Unit → Emit
  | .ok () => pure ()
  | .error e => throw e

def name (name : String) : Option (List TypeExpr) → Emit
  | none => emit (.name name [])
  | some [] => throw (.unboundGeneric name)
  | some arguments => emit (.name name arguments)

def conditional : Bool → Emit
  | true => emit .conditionalAccess
  | false => pure ()

/-- The work in brackets of a wrapper. However it ends, the setting is put back. -/
def wrapped (on : Bool) (work : Emit) : Emit := fun s =>
  match work { s with checked := on } with
  | .ok () s' => .ok () { s' with checked := s.checked }
  | .error e s' => .error e { s' with checked := s.checked }

mutual

def visit : Expr → Emit
  | .literal l => emit (.literal l)
  | .identifier n => emit (.name n [])
  | .generic n arguments => name n (some arguments)
  | .this => emit .this
  | .predefined runtimeName => emit (.predefined runtimeName)
  | .member target n arguments isConditional => do
    visit target
    conditional isConditional
    name n arguments
    emit .memberAccess
  | .element target indices isConditional => do
    require (if indices.isEmpty then .error .indexExpected else pure ())
    visit target
    conditional isConditional
    visitAll indices
    emit (.elementAccess indices.length)
  | .invocation target arguments => do
    require target.callable
    visit target
    visitAll arguments
    emit (.invocation arguments.length)
  | .unary op operand => do
    visit operand
    emit (.unary op)
  | .binary op left right => do
    visit left
    visit right
    emit (.binary op)
  | .checked on body => wrapped on (visit body)
  | .sizeOf type => emit (.sizeOf type)
  | .interpolated pieces => do
    visitHoles pieces
    emit (.interpolate (pieces.map Expr.Piece.erase))
  | .unsupported keyword => throw (.unsupportedKeyword keyword)

def visitAll : List Expr → Emit
  | [] => pure ()
  | e :: rest => do
    visit e
    visitAll rest

def visitHoles : List (Piece Expr) → Emit
  | [] => pure ()
  | .text _ :: rest => visitHoles rest
  | .hole e :: rest => do
    visit e
    visitHoles rest

end

/-- The work adds the program for its setting or is refused like it, and leaves the setting. -/
def Adds (work : Emit) (program : Bool → Except EvalError Code) : Prop :=
  ∀ front on, match program on with
    | .ok code => work ⟨front, on⟩ = .ok () ⟨front ++ code, on⟩
    | .error e => ∃ part, work ⟨front, on⟩ = .error e ⟨part, on⟩

/-- One program behind the other. -/
def joined (program program' : Bool → Except EvalError Code) (on : Bool) : Except EvalError Code := do
  let code ← program on
  let code' ← program' on
  return code ++ code'

namespace Adds

variable {work next : Emit} {program program' : Bool → Except EvalError Code}

theorem nothing : Adds (pure ()) fun _ => pure [] := by
  intro front on
  simp only [pure, Except.pure, List.append_nil]
  rfl

theorem emit (op : Operation) : Adds (emit op) fun on => pure [⟨op, on⟩] := fun _ _ => rfl

theorem refusal (e : EvalError) : Adds (throw e) fun _ => .error e := fun front _ => ⟨front, rfl⟩

theorem andThen (first : Adds work program) (second : Adds next program') :
    Adds (work >>= fun _ => next) (joined program program') := by
  intro front on
  have begun := first front on
  cases found : program on with
  | error e =>
      rw [found] at begun
      obtain ⟨part, failed⟩ := begun
      simp only [joined, found, bind, Except.bind, EStateM.bind, failed]
      exact ⟨part, rfl⟩
  | ok code =>
      rw [found] at begun
      have ended := second (front ++ code) on
      cases found' : program' on with
      | error e =>
          rw [found'] at ended
          obtain ⟨part, failed⟩ := ended
          simp only [joined, found, found', bind, Except.bind, EStateM.bind, begun, failed]
          exact ⟨part, rfl⟩
      | ok code' =>
          rw [found'] at ended
          simp only [joined, found, found', bind, Except.bind, EStateM.bind, begun, ended, pure,
            Except.pure, List.append_assoc]

theorem congr (adds : Adds work program) (same : ∀ on, program on = program' on) :
    Adds work program' :=
  funext same ▸ adds

theorem wrapped {on : Bool} (adds : Adds work program) :
    Adds (wrapped on work) fun _ => program on := by
  intro front outside
  have inside := adds front on
  cases found : program on with
  | error e =>
      rw [found] at inside
      obtain ⟨part, failed⟩ := inside
      simp only [Emit.wrapped, failed]
      exact ⟨part, rfl⟩
  | ok code =>
      rw [found] at inside
      simp only [Emit.wrapped, inside]

theorem require (condition : Except EvalError Unit) :
    Adds (require condition) fun _ => condition >>= fun _ => pure [] := by
  cases condition with
  | error e => exact refusal e
  | ok => exact nothing

theorem conditional (isConditional : Bool) :
    Adds (conditional isConditional) fun on => pure (Expr.conditionalCode isConditional on) := by
  cases isConditional with
  | true => exact emit .conditionalAccess
  | false => exact nothing

theorem name (n : String) (arguments : Option (List TypeExpr)) :
    Adds (name n arguments) fun on => Expr.nameCode n on arguments >>= fun i => pure [i] := by
  cases arguments with
  | none => exact emit (.name n [])
  | some arguments =>
      cases arguments with
      | nil => exact refusal (.unboundGeneric n)
      | cons t rest => exact emit (.name n (t :: rest))

end Adds

mutual

theorem adds_visit (e : Expr) : Adds (visit e) fun on => e.code on := by
  cases e with
  | literal l => exact .emit (.literal l)
  | identifier n => exact .emit (.name n [])
  | generic n arguments => exact Adds.name n (some arguments)
  | this => exact .emit .this
  | predefined runtimeName => exact .emit (.predefined runtimeName)
  | member target n arguments isConditional =>
      have parts := (adds_visit target).andThen ((Adds.conditional isConditional).andThen
        ((Adds.name n arguments).andThen (.emit .memberAccess)))
      refine parts.congr fun on => ?_
      simp [joined, Expr.code]
  | element target indices isConditional =>
      have parts := (Adds.require (if indices.isEmpty then .error .indexExpected else pure ())).andThen
        ((adds_visit target).andThen ((Adds.conditional isConditional).andThen
          ((adds_visitAll indices).andThen (.emit (.elementAccess indices.length)))))
      refine parts.congr fun on => ?_
      cases indices with
      | nil => rfl
      | cons first rest => simp [joined, Expr.code]
  | invocation target arguments =>
      have parts := (Adds.require target.callable).andThen ((adds_visit target).andThen
        ((adds_visitAll arguments).andThen (.emit (.invocation arguments.length))))
      refine parts.congr fun on => ?_
      simp [joined, Expr.code]
  | unary op operand =>
      exact (adds_visit operand).andThen (.emit (.unary op))
  | binary op left right =>
      have parts := (adds_visit left).andThen ((adds_visit right).andThen (.emit (.binary op)))
      refine parts.congr fun on => ?_
      simp [joined, Expr.code]
  | checked on body => exact (adds_visit body).wrapped
  | sizeOf type => exact .emit (.sizeOf type)
  | interpolated pieces => exact (adds_visitHoles pieces).andThen (.emit _)
  | unsupported keyword => exact .refusal (.unsupportedKeyword keyword)

theorem adds_visitAll (es : List Expr) : Adds (visitAll es) fun on => Expr.codeAll on es := by
  cases es with
  | nil => exact .nothing
  | cons e rest => exact (adds_visit e).andThen (adds_visitAll rest)

theorem adds_visitHoles (pieces : List (Piece Expr)) :
    Adds (visitHoles pieces) fun on => Expr.codePieces on pieces := by
  cases pieces with
  | nil => exact .nothing
  | cons piece rest =>
      cases piece with
      | text t => exact adds_visitHoles rest
      | hole e => exact (adds_visit e).andThen (adds_visitHoles rest)

end

/-- A tree that compiles adds its program, in whatever setting the emitter is. -/
theorem visit_of_code {e : Expr} {on : Bool} {code : Code} (compiled : e.code on = .ok code)
    (front : Code) : visit e ⟨front, on⟩ = .ok () ⟨front ++ code, on⟩ := by
  have added := adds_visit e front on
  simp only [compiled] at added
  exact added

end Emit

end ManagedDebugger
