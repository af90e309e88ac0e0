import ManagedDebugger.Session.Work

/-!
Running the tasks of a session.

A request of the front end and the dispatcher, which handles one notification after the other, take
turns: a task goes on until it has to wait for an evaluation or for a lock, and under a remote target
also for the answer to every call. Notifications are routed first, as completions may be what a task
waits for. Time passes only when nothing else can happen, and then just as far as the next limit of a
wait.
-/

namespace ManagedDebugger

/-- Whoever answers the calls to the target, and the notifications that each call raises. -/
structure Backend (τ : Type) where
  answer : (call : NativeCall) → τ → call.Reply × List NativeEvent × τ
  /-- The answer takes a while, in which the other task goes on. -/
  isRemote : Bool

inductive TaskId where
  | request
  | dispatcher
  deriving DecidableEq, Repr, Inhabited

def TaskId.other : TaskId → TaskId
  | request => dispatcher
  | dispatcher => request

/-- The task that goes on first when both can. Notifications that are raised together with the
completion of an evaluation come before it, and so reach the dispatcher first. -/
def Backend.first {τ : Type} (b : Backend τ) : TaskId :=
  if b.isRemote then .dispatcher else .request

/-- Where a task stands. -/
inductive Task (σ ε α : Type) where
  | ready (program : Job σ ε α)
  | waiting (ticket : Ticket) (deadline : Option Nat) (next : Option Delivery → Job σ ε α)
  | blocked (lock : Lock) (next : Unit → Job σ ε α)
  | finished (a : α)

/-- What outlives a single request. -/
structure Machine (σ ε : Type) where
  state : σ
  waiters : Waiters
  /-- Raised and not routed yet. -/
  inbox : List NativeEvent
  /-- Routed to the dispatcher and not handled yet. -/
  queue : List NativeEvent
  /-- For the front end, the oldest one first. -/
  emitted : List ε
  /-- Per lock the task that holds it, then those that want it, in the order in which they came. -/
  lines : Keyed Lock (List TaskId)
  /-- Milliseconds that have passed. -/
  now : Nat
  dispatcher : Task σ ε Unit

/-- A machine that works on a request, and the task whose turn it is. -/
structure Run (σ ε α : Type) where
  machine : Machine σ ε
  request : Task σ ε α
  turn : Option TaskId

/-- A step, up to the answer of the target if it takes one. -/
inductive Step (σ ε α : Type) where
  | internal (run : Run σ ε α)
  | call (call : NativeCall) (next : call.Reply → Run σ ε α)
  /-- Nothing more can happen. -/
  | rest

variable {σ ε α τ : Type}

namespace Machine

def start (state : σ) : Machine σ ε :=
  ⟨state, .empty, [], [], [], [], 0, .finished ()⟩

def raise (m : Machine σ ε) (events : List NativeEvent) : Machine σ ε :=
  { m with inbox := m.inbox ++ events }

def line (m : Machine σ ε) (lock : Lock) : List TaskId := (m.lines.get? lock).getD []

def isHeldBy (m : Machine σ ε) (lock : Lock) (owner : TaskId) : Bool :=
  (m.line lock).head? == some owner

def enqueue (m : Machine σ ε) (lock : Lock) (owner : TaskId) : Machine σ ε :=
  { m with lines := m.lines.put lock (m.line lock ++ [owner]) }

def release (m : Machine σ ε) (lock : Lock) : Machine σ ε :=
  { m with lines := m.lines.put lock (m.line lock).tail }

/-- Takes a task out of every line. -/
def forget (m : Machine σ ε) (owner : TaskId) : Machine σ ε :=
  { m with lines := m.lines.map fun (lock, line) => (lock, line.filter (· != owner)) }

/-- Takes what the front end was told. -/
def takeEmitted (m : Machine σ ε) : List ε × Machine σ ε :=
  (m.emitted, { m with emitted := [] })

/-- One operation of a task that does not call the target. -/
def perform (m : Machine σ ε) (owner : TaskId) :
    (op : WorkOp σ ε) → (op.Reply → Job σ ε α) → Machine σ ε × Task σ ε α
  | .eval (.native call), next => (m, .ready (.perform (.eval (.native call)) next))
  | .eval (.register eval thread), next =>
    let (ticket, waiters) := m.waiters.register eval thread
    ({ m with waiters }, .ready (next ticket))
  | .eval (.cancel eval), next =>
    ({ m with waiters := m.waiters.cancel eval }, .ready (next ()))
  | .eval (.wait ticket limit), next =>
    match m.waiters.take? ticket, limit with
    | some (d, waiters), _ => ({ m with waiters }, .ready (next (some d)))
    | none, some 0 => (m, .ready (next none))
    | none, limit => (m, .waiting ticket (limit.map (m.now + ·)) next)
  | .update f, next => ({ m with state := f m.state }, .ready (next m.state))
  | .emit event, next => ({ m with emitted := m.emitted ++ [event] }, .ready (next ()))
  | .acquire lock, next =>
    let m := m.enqueue lock owner
    (m, if m.isHeldBy lock owner then .ready (next ()) else .blocked lock next)
  | .release lock, next => (m.release lock, .ready (next ()))

/-- Whether a suspended task can go on, and how. -/
def wake? (m : Machine σ ε) (owner : TaskId) :
    Task σ ε α → Option (Machine σ ε × Task σ ε α)
  | .ready p => some (m, .ready p)
  | .waiting ticket _ next =>
    (m.waiters.take? ticket).map fun (d, waiters) => ({ m with waiters }, .ready (next (some d)))
  | .blocked lock next => if m.isHeldBy lock owner then some (m, .ready (next ())) else none
  | .finished _ => none

end Machine

namespace Task

def deadline? : Task σ ε α → Option Nat
  | waiting _ deadline _ => deadline
  | _ => none

/-- A wait that ran out of time. -/
def expire : Task σ ε α → Task σ ε α
  | waiting _ _ next => .ready (next none)
  | other => other

def result? : Task σ ε α → Option α
  | finished a => some a
  | _ => none

end Task

namespace Run

/-- One step of the task whose turn it is; `put` says where the task is kept. -/
def advance {β : Type} (r : Run σ ε α) (owner : TaskId) (task : Task σ ε β)
    (put : Machine σ ε → Task σ ε β → Run σ ε α) : Step σ ε α :=
  match task with
  | .ready (.done a) => .internal { put r.machine (.finished a) with turn := none }
  | .ready (.perform (.eval (.native call)) next) =>
    .call call fun reply => { put r.machine (.ready (next reply)) with turn := some owner }
  | .ready (.perform op next) =>
    let (m, task) := r.machine.perform owner op next
    .internal { put m task with turn := some owner }
  | _ => .internal { r with turn := none }

def putRequest (m : Machine σ ε) (t : Task σ ε α) (r : Run σ ε α) : Run σ ε α :=
  { r with machine := m, request := t }

def putDispatcher (m : Machine σ ε) (t : Task σ ε Unit) (r : Run σ ε α) : Run σ ε α :=
  { r with machine := { m with dispatcher := t } }

/-- Routes the oldest notification. -/
def routeNext (r : Run σ ε α) (event : NativeEvent) (rest : List NativeEvent) : Step σ ε α :=
  let (route, waiters) := r.machine.waiters.route event
  let m := { r.machine with inbox := rest, waiters }
  match route with
  | .consumed => .internal { r with machine := m }
  | .resume => .call .continueProcess fun _ => { r with machine := m }
  | .forward => .internal { r with machine := { m with queue := m.queue ++ [event] } }

/-- Lets time pass up to the first limit. -/
def expireFirst (r : Run σ ε α) : Step σ ε α :=
  let expireRequest (t : Nat) : Step σ ε α :=
    .internal (putRequest { r.machine with now := t } r.request.expire r)
  let expireDispatcher (t : Nat) : Step σ ε α :=
    .internal (putDispatcher { r.machine with now := t } r.machine.dispatcher.expire r)
  match r.request.deadline?, r.machine.dispatcher.deadline? with
  | some t, some u => if t ≤ u then expireRequest t else expireDispatcher u
  | some t, none => expireRequest t
  | none, some u => expireDispatcher u
  | none, none => .rest

def resumeRequest? (r : Run σ ε α) : Option (Run σ ε α) :=
  (r.machine.wake? .request r.request).map fun (m, t) =>
    { putRequest m t r with turn := some .request }

/-- The dispatcher goes on, or takes the next notification. -/
def resumeDispatcher? (handle : Option (NativeEvent → Job σ ε Unit)) (r : Run σ ε α) :
    Option (Run σ ε α) :=
  match r.machine.wake? .dispatcher r.machine.dispatcher with
  | some (m, t) => some { putDispatcher m t r with turn := some .dispatcher }
  | none =>
    match handle, r.machine.dispatcher, r.machine.queue with
    | some handle, .finished (), event :: rest =>
      some { putDispatcher { r.machine with queue := rest } (.ready (handle event)) r with
        turn := some .dispatcher }
    | _, _, _ => none

def resume? (handle : Option (NativeEvent → Job σ ε Unit)) (r : Run σ ε α) :
    TaskId → Option (Run σ ε α)
  | .request => r.resumeRequest?
  | .dispatcher => r.resumeDispatcher? handle

/-- Picks what goes on when it is nobody's turn. -/
def choose (handle : Option (NativeEvent → Job σ ε Unit)) (first : TaskId) (r : Run σ ε α) :
    Step σ ε α :=
  match r.machine.inbox with
  | event :: rest => r.routeNext event rest
  | [] =>
    match r.resume? handle first with
    | some r => .internal r
    | none =>
      match r.resume? handle first.other with
      | some r => .internal r
      | none => r.expireFirst

def step (handle : Option (NativeEvent → Job σ ε Unit)) (first : TaskId) (r : Run σ ε α) :
    Step σ ε α :=
  match r.turn with
  | some .request => r.advance .request r.request fun m t => putRequest m t r
  | some .dispatcher => r.advance .dispatcher r.machine.dispatcher fun m t => putDispatcher m t r
  | none => r.choose handle first

/-- Gives the turn to the other task, if that can go on. -/
def passTurn (handle : Option (NativeEvent → Job σ ε Unit)) (r : Run σ ε α) : Run σ ε α :=
  match r.turn with
  | some owner => (r.resume? handle owner.other).getD r
  | none => r

/-- Runs to rest, for at most `fuel` steps. -/
def toRest (backend : Backend τ) (handle : Option (NativeEvent → Job σ ε Unit)) :
    Nat → Run σ ε α → τ → Run σ ε α × τ
  | 0, r, t => (r, t)
  | fuel + 1, r, t =>
    match r.step handle backend.first with
    | .internal r => toRest backend handle fuel r t
    | .call call next =>
      let (reply, events, t) := backend.answer call t
      let r := next reply
      let r := if backend.isRemote then r.passTurn handle else r
      toRest backend handle fuel { r with machine := r.machine.raise events } t
    | .rest => (r, t)

end Run

namespace Machine

/-- Works on a request, from where it stands, until nothing more can happen. -/
def work (backend : Backend τ) (handle : Option (NativeEvent → Job σ ε Unit)) (fuel : Nat)
    (request : Task σ ε α) (m : Machine σ ε) (t : τ) : Task σ ε α × Machine σ ε × τ :=
  let (r, t) := Run.toRest backend handle fuel ⟨m, request, none⟩ t
  (r.request, r.machine, t)

/-- Works on a request until nothing more can happen. A request that still waits then is given up,
and has no answer. -/
def request (backend : Backend τ) (handle : Option (NativeEvent → Job σ ε Unit)) (fuel : Nat)
    (p : Job σ ε α) (m : Machine σ ε) (t : τ) : Option α × Machine σ ε × τ :=
  let (task, m, t) := m.work backend handle fuel (.ready p) t
  (task.result?, m.forget .request, t)

/-- Works on notifications until nothing more can happen. -/
def notify (backend : Backend τ) (handle : Option (NativeEvent → Job σ ε Unit)) (fuel : Nat)
    (events : List NativeEvent) (m : Machine σ ε) (t : τ) : Machine σ ε × τ :=
  ((m.raise events).request backend handle fuel (Program.done ()) t).2

end Machine

end ManagedDebugger
