import ManagedDebugger.Keyed
import ManagedDebugger.Target.Event

/-!
Evaluations that someone waits for.

Each registration hands out a ticket. A completion goes to the ticket that is registered for its
evaluation at that time; a ticket whose registration was cancelled or replaced is told that nothing
will come any more. A stop on a thread that runs an evaluation is not the user's to see, so it is not
passed on.
-/

namespace ManagedDebugger

/-- How an evaluation ended. -/
inductive EvalOutcome where
  | completed (result : Option RemoteValue)
  | threw (exception : RemoteValue)
  deriving DecidableEq, Repr, Inhabited

/-- What a ticket is told. -/
inductive Delivery where
  | outcome (o : EvalOutcome)
  | closed
  deriving DecidableEq, Repr, Inhabited

abbrev Ticket := Nat

structure Waiter where
  thread : ThreadId
  ticket : Ticket
  deriving DecidableEq, Repr, Inhabited

structure Waiters where
  nextTicket : Ticket
  pending : Keyed EvalId Waiter
  /-- What tickets were told and have not read yet. -/
  delivered : Keyed Ticket Delivery
  deriving Repr

/-- What becomes of a notification. -/
inductive Route where
  | consumed
  | resume
  | forward
  deriving DecidableEq, Repr, Inhabited

namespace Waiters

def empty : Waiters := ⟨0, [], []⟩

/-- Ends the registration of an evaluation with something to tell its ticket. -/
def settle (w : Waiters) (eval : EvalId) (d : Delivery) : Waiters :=
  match w.pending.get? eval with
  | some waiter =>
    { w with pending := w.pending.erase eval, delivered := w.delivered.put waiter.ticket d }
  | none => w

def cancel (w : Waiters) (eval : EvalId) : Waiters := w.settle eval .closed

/-- A completion that nobody waits for is dropped. -/
def complete (w : Waiters) (eval : EvalId) (o : EvalOutcome) : Waiters :=
  w.settle eval (.outcome o)

def register (w : Waiters) (eval : EvalId) (thread : ThreadId) : Ticket × Waiters :=
  let w := w.cancel eval
  (w.nextTicket,
    { w with nextTicket := w.nextTicket + 1, pending := w.pending.put eval ⟨thread, w.nextTicket⟩ })

def inFlight (w : Waiters) (thread : ThreadId) : Bool :=
  w.pending.values.any fun waiter => waiter.thread == thread

/-- Reads what a ticket was told. -/
def take? (w : Waiters) (ticket : Ticket) : Option (Delivery × Waiters) :=
  (w.delivered.get? ticket).map fun d => (d, { w with delivered := w.delivered.erase ticket })

def route (w : Waiters) : NativeEvent → Route × Waiters
  | .evalComplete _ eval result => (.consumed, w.complete eval (.completed result))
  | .evalException _ eval exception => (.consumed, w.complete eval (.threw exception))
  | .breakpointHit thread _ | .stepComplete thread _ | .userBreak thread
  | .exception thread _ _ => (if w.inFlight thread then .resume else .forward, w)
  | _ => (.forward, w)

end Waiters

end ManagedDebugger
