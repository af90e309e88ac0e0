import ManagedDebugger.Eval.Waiters
import ManagedDebugger.Target.Native

/-!
Programs that evaluate: besides calling the target they wait for evaluations to end.
-/

namespace ManagedDebugger

inductive EvalOp where
  | native (call : NativeCall)
  | register (eval : EvalId) (thread : ThreadId)
  | cancel (eval : EvalId)
  /-- Waits until the ticket is told something, at most `limit` milliseconds. -/
  | wait (ticket : Ticket) (limit : Option Nat)

/-- A wait that runs out of time answers nothing. -/
abbrev EvalOp.Reply : EvalOp → Type
  | native call => call.Reply
  | register .. => Ticket
  | cancel _ => Unit
  | wait .. => Option Delivery

abbrev evalEffect : Effect := ⟨EvalOp, EvalOp.Reply⟩

/-- The first error ends the evaluation. -/
abbrev Eval := ExceptT EvalError (Program evalEffect)

def EvalOp.ofNative (call : NativeCall) : Program evalEffect call.Reply :=
  Program.ask (E := evalEffect) (.native call)

/-- A program that never waits, as one that may. -/
def Program.evaluating {α : Type} (p : Program nativeEffect α) : Program evalEffect α :=
  p.translate EvalOp.ofNative

instance : MonadLift (Program nativeEffect) (Program evalEffect) := ⟨Program.evaluating⟩

namespace Eval

def ofNative {α : Type} (p : Native α) : Eval α :=
  ExceptT.mk ((Except.mapError EvalError.native) <$> Program.evaluating p.run)

instance : MonadLift Native Eval := ⟨ofNative⟩

def native (call : NativeCall) : Eval call.Answer := ofNative (Native.call call)

/-- The result of an evaluation, as a value. -/
def attempt {α : Type} (p : Eval α) : Program evalEffect (Except EvalError α) := p.run

def register (eval : EvalId) (thread : ThreadId) : Program evalEffect Ticket :=
  Program.ask (E := evalEffect) (.register eval thread)

def cancel (eval : EvalId) : Program evalEffect Unit :=
  Program.ask (E := evalEffect) (.cancel eval)

def wait (ticket : Ticket) (limit : Option Nat) : Program evalEffect (Option Delivery) :=
  Program.ask (E := evalEffect) (.wait ticket limit)

end Eval

end ManagedDebugger
