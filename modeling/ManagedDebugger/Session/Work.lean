import ManagedDebugger.Step.Controller

/-!
Programs of the tasks of a session. Besides evaluating, a task reads and changes the state that all
tasks share, tells the front end what happened, and holds locks across calls to the target.
-/

namespace ManagedDebugger

/-- A part of the shared state that one task at a time works on. -/
inductive Lock where
  | stepper
  | breakpoints
  deriving DecidableEq, Repr, Inhabited

inductive WorkOp (σ ε : Type) where
  | eval (op : EvalOp)
  /-- Changes the shared state; the answer is the state before. -/
  | update (f : σ → σ)
  | emit (event : ε)
  | acquire (lock : Lock)
  | release (lock : Lock)

abbrev WorkOp.Reply {σ ε : Type} : WorkOp σ ε → Type
  | eval op => op.Reply
  | update _ => σ
  | emit _ | acquire _ | release _ => Unit

abbrev workEffect (σ ε : Type) : Effect := ⟨WorkOp σ ε, WorkOp.Reply⟩

/-- A task without errors of its own. -/
abbrev Job (σ ε : Type) := Program (workEffect σ ε)

/-- A failing call inside of an evaluation is a failing call. -/
def EngineError.ofEval : EvalError → EngineError
  | .native e => .native e
  | e => .eval e

/-- The first error ends the task. -/
abbrev Work (σ ε : Type) := ExceptT EngineError (Job σ ε)

variable {σ ε α : Type}

def WorkOp.ofEval (op : EvalOp) : Job σ ε op.Reply :=
  Program.ask (E := workEffect σ ε) (.eval op)

/-- An evaluation, as part of a task. -/
def Program.working (p : Program evalEffect α) : Job σ ε α := p.translate WorkOp.ofEval

instance : MonadLift (Program evalEffect) (Job σ ε) := ⟨Program.working⟩

namespace Job

def native (p : Native α) : Job σ ε (Except NativeError α) := p.run.evaluating.working

def eval (p : Eval α) : Job σ ε (Except EvalError α) := p.run.working

/-- Changes the state and answers something about it, in one go. -/
def update (f : σ → α × σ) : Job σ ε α := do
  let before ← Program.ask (E := workEffect σ ε) (.update fun s => (f s).2)
  return (f before).1

def get : Job σ ε σ := update fun s => (s, s)

def modify (f : σ → σ) : Job σ ε Unit := update fun s => ((), f s)

def emit (event : ε) : Job σ ε Unit := Program.ask (E := workEffect σ ε) (.emit event)

/-- Keeps a lock while a program runs. -/
def locked (lock : Lock) (p : Job σ ε α) : Job σ ε α := do
  Program.ask (E := workEffect σ ε) (.acquire lock)
  let a ← p
  Program.ask (E := workEffect σ ε) (.release lock)
  return a

/-- Works on the step in flight, which is a part of the state, while nobody else does. -/
def stepping (view : σ → StepState) (put : StepState → σ → σ) (p : Stepping α) :
    Job σ ε (Except EngineError α) :=
  locked .stepper do
    let before ← get
    let (result, step) ← (p.run (view before)).working
    modify (put step)
    return result

end Job

namespace Work

def ofJob (p : Job σ ε α) : Work σ ε α := ExceptT.lift p

def ofNative (p : Native α) : Work σ ε α :=
  ExceptT.mk ((Except.mapError EngineError.native) <$> Job.native p)

def ofEval (p : Eval α) : Work σ ε α :=
  ExceptT.mk ((Except.mapError EngineError.ofEval) <$> Job.eval p)

instance : MonadLift Native (Work σ ε) := ⟨ofNative⟩

def native (call : NativeCall) : Work σ ε call.Answer := ofNative (Native.call call)

end Work

end ManagedDebugger
