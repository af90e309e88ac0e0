import ManagedDebugger.Proofs.Session.Interleaving
import ManagedDebugger.Proofs.Session.Rest

/-!
# Who waits for whom

Tasks hold one lock at a time and let it go before they end. So a task that wants a lock waits for
one that does not want any: where nothing more can happen, all that is waited for in the end is an
evaluation that may take forever.
-/

namespace ManagedDebugger

variable {σ ε α β τ : Type}

/-! ## Locks in a program -/

/-- A program holds a lock, or none, before and after it runs. It takes none while it holds one. -/
inductive Job.Holding : Option Lock → Option Lock → Job σ ε α → Prop where
  | done {held : Option Lock} (a : α) : Holding held held (.done a)
  | perform {held after : Option Lock} {op : WorkOp σ ε} {next : op.Reply → Job σ ε α} :
      (∀ lock, ¬ op.Uses lock) → (∀ reply, Holding held after (next reply)) →
      Holding held after (.perform op next)
  | acquire {lock : Lock} {after : Option Lock} {next : Unit → Job σ ε α} :
      Holding (some lock) after (next ()) → Holding none after (.perform (.acquire lock) next)
  | release {lock : Lock} {after : Option Lock} {next : Unit → Job σ ε α} :
      Holding none after (next ()) → Holding (some lock) after (.perform (.release lock) next)

/-- A task begins and ends without a lock. -/
abbrev Job.Tidy (p : Job σ ε α) : Prop := p.Holding none none

namespace Job

variable {held between after : Option Lock}

theorem Holding.bind {p : Job σ ε α} {f : α → Job σ ε β} (first : p.Holding held between)
    (second : ∀ a, (f a).Holding between after) : (p >>= f).Holding held after := by
  induction first with
  | done a => exact second a
  | perform unused _ inductionHypothesis =>
      exact .perform unused fun reply => inductionHypothesis reply second
  | acquire _ inductionHypothesis => exact .acquire (inductionHypothesis second)
  | release _ inductionHypothesis => exact .release (inductionHypothesis second)

theorem holding_done_iff {a : α} : Holding held after (.done a : Job σ ε α) ↔ held = after := by
  constructor
  · intro holding
    cases holding
    rfl
  · rintro rfl
    exact .done a

theorem holding_perform_iff {op : WorkOp σ ε} {next : op.Reply → Job σ ε α}
    (unused : ∀ lock, ¬ op.Uses lock) :
    Holding held after (.perform op next) ↔ ∀ reply, Holding held after (next reply) := by
  refine ⟨fun holding => ?_, .perform unused⟩
  cases holding with
  | perform _ later => exact later
  | acquire => exact absurd rfl (unused _)
  | release => exact absurd rfl (unused _)

theorem holding_acquire_iff {lock : Lock} {next : Unit → Job σ ε α} :
    Holding held after (.perform (.acquire lock) next) ↔
      held = none ∧ Holding (some lock) after (next ()) := by
  constructor
  · intro holding
    cases holding with
    | perform unused _ => exact absurd rfl (unused lock)
    | acquire later => exact ⟨rfl, later⟩
  · rintro ⟨rfl, later⟩
    exact .acquire later

theorem holding_release_iff {lock : Lock} {next : Unit → Job σ ε α} :
    Holding held after (.perform (.release lock) next) ↔
      held = some lock ∧ Holding none after (next ()) := by
  constructor
  · intro holding
    cases holding with
    | perform unused _ => exact absurd rfl (unused lock)
    | release later => exact ⟨rfl, later⟩
  · rintro ⟨rfl, later⟩
    exact .release later

theorem holding_ask {op : WorkOp σ ε} (unused : ∀ lock, ¬ op.Uses lock) :
    Holding held held (Program.ask (E := workEffect σ ε) op) :=
  .perform unused fun reply => .done reply

theorem holding_update (f : σ → α × σ) : Holding held held (update f : Job σ ε α) :=
  .bind (holding_ask fun _ => id) fun _ => .done _

theorem holding_working (p : Program evalEffect α) :
    Holding held held (p.working : Job σ ε α) := by
  induction p with
  | done a => exact .done a
  | perform op next inductionHypothesis =>
      exact .perform (fun _ => id) inductionHypothesis

end Job

/-! ## The line of a lock -/

/-- Where a task stands: the lock that it holds, and the one that it waits for. -/
@[ext]
structure Post where
  held : Option Lock
  wanted : Option Lock

/-- The task that holds a lock is the first in its line, and those that want it stand there too. -/
structure Lined (line : List TaskId) (posts : TaskId → Post) (lock : Lock) : Prop where
  nodup : line.Nodup
  mem_iff : ∀ owner, owner ∈ line ↔
    (posts owner).held = some lock ∨ (posts owner).wanted = some lock
  front : ∀ owner, (posts owner).held = some lock → line.head? = some owner

namespace Lined

variable {line : List TaskId} {posts : TaskId → Post} {lock : Lock} {owner : TaskId} {post : Post}

/-- A task moves elsewhere. -/
theorem aside (lined : Lined line posts lock)
    (held : (posts owner).held = some lock ↔ post.held = some lock)
    (wanted : (posts owner).wanted = some lock ↔ post.wanted = some lock) :
    Lined line (Function.update posts owner post) lock := by
  have held' (other : TaskId) : (Function.update posts owner post other).held = some lock ↔
      (posts other).held = some lock := by
    by_cases same : other = owner
    · rw [same, Function.update_self, held]
    · rw [Function.update_of_ne same]
  have wanted' (other : TaskId) : (Function.update posts owner post other).wanted = some lock ↔
      (posts other).wanted = some lock := by
    by_cases same : other = owner
    · rw [same, Function.update_self, wanted]
    · rw [Function.update_of_ne same]
  refine ⟨lined.nodup, fun other => ?_, fun other holds => ?_⟩
  · rw [held', wanted']
    exact lined.mem_iff other
  · exact lined.front other ((held' other).mp holds)

/-- A task that is nowhere joins the line. -/
theorem join (lined : Lined line posts lock) (free : posts owner = ⟨none, none⟩) :
    Lined (line ++ [owner]) (Function.update posts owner ⟨none, some lock⟩) lock := by
  have absent : owner ∉ line := by
    rw [lined.mem_iff, free]
    simp
  refine ⟨?_, fun other => ?_, fun other holds => ?_⟩
  · simp only [List.nodup_append, lined.nodup, List.nodup_cons, List.mem_singleton]
    simp
    rintro other among rfl
    exact absent among
  · by_cases same : other = owner
    · simp [same]
    · simp [same, lined.mem_iff]
  · by_cases same : other = owner
    · simp [same] at holds
    · rw [Function.update_of_ne same] at holds
      simp [lined.front other holds]

/-- The first task in the line has the lock. -/
theorem serve (lined : Lined line posts lock) (first : line.head? = some owner)
    (wants : (posts owner).wanted = some lock) :
    Lined line (Function.update posts owner ⟨some lock, none⟩) lock := by
  refine ⟨lined.nodup, fun other => ?_, fun other holds => ?_⟩
  · by_cases same : other = owner
    · simp [same, lined.mem_iff, wants]
    · simp [same, lined.mem_iff]
  · by_cases same : other = owner
    · rw [same, first]
    · rw [Function.update_of_ne same] at holds
      exact lined.front other holds

/-- The lock is let go. -/
theorem leave (lined : Lined line posts lock) (holds : posts owner = ⟨some lock, none⟩) :
    Lined line.tail (Function.update posts owner ⟨none, none⟩) lock := by
  have first := lined.front owner (by rw [holds])
  obtain ⟨rest, rfl⟩ := List.head?_eq_some_iff.mp first
  obtain ⟨absent, nodup⟩ := List.nodup_cons.mp lined.nodup
  refine ⟨nodup, fun other => ?_, fun other held => ?_⟩
  · by_cases same : other = owner
    · simpa [same] using absent
    · have member := lined.mem_iff other
      simpa [same] using member
  · by_cases same : other = owner
    · simp [same] at held
    · rw [Function.update_of_ne same] at held
      exact absurd (lined.front other held) (by simpa using Ne.symm same)

end Lined

/-! ## Tasks and their locks -/

def Task.wants? : Task σ ε α → Option Lock
  | blocked lock _ => some lock
  | ready _ | waiting .. | finished _ => none

/-- A task stands somewhere, and what is left of it is tidy. -/
structure Task.At (task : Task σ ε α) (post : Post) : Prop where
  wanted : task.wants? = post.wanted
  tidy : ∃ rest, task.StandsAt rest ∧ rest.Holding post.held none

namespace Task

theorem at_ready {p : Job σ ε α} {held : Option Lock} (tidy : p.Holding held none) :
    At (.ready p) ⟨held, none⟩ :=
  ⟨rfl, p, .ready p, tidy⟩

theorem at_finished (a : α) : At (.finished a : Task σ ε α) ⟨none, none⟩ :=
  ⟨rfl, _, .finished a, .done a⟩

variable {task : Task σ ε α} {post : Post}

theorem At.ready {p : Job σ ε α} (stands : At (.ready p) post) :
    post.wanted = none ∧ p.Holding post.held none := by
  obtain ⟨wanted, rest, same, tidy⟩ := stands
  cases same
  exact ⟨wanted.symm, tidy⟩

theorem At.waiting {ticket : Ticket} {deadline : Option Nat}
    {next : Option Delivery → Job σ ε α} (stands : At (.waiting ticket deadline next) post)
    (delivery : Option Delivery) : At (.ready (next delivery)) post := by
  obtain ⟨wanted, rest, same, tidy⟩ := stands
  cases same
  exact ⟨wanted, _, .ready _, (Job.holding_perform_iff fun _ => id).mp tidy delivery⟩

theorem At.blocked {lock : Lock} {next : Unit → Job σ ε α} (stands : At (.blocked lock next) post) :
    post = ⟨none, some lock⟩ ∧ (next ()).Holding (some lock) none := by
  obtain ⟨wanted, rest, same, tidy⟩ := stands
  cases same
  obtain ⟨held, tidy⟩ := Job.holding_acquire_iff.mp tidy
  exact ⟨Post.ext held wanted.symm, tidy⟩

theorem At.finished {a : α} (stands : At (.finished a : Task σ ε α) post) :
    post = ⟨none, none⟩ := by
  obtain ⟨wanted, rest, same, tidy⟩ := stands
  cases same
  exact Post.ext (Job.holding_done_iff.mp tidy) wanted.symm

theorem At.expire (stands : task.At post) : task.expire.At post := by
  cases task with
  | waiting ticket deadline next => exact stands.waiting none
  | ready p => exact stands
  | blocked lock next => exact stands
  | finished a => exact stands

end Task

namespace Machine

variable {m m' : Machine σ ε} {owner : TaskId} {posts : TaskId → Post}

/-- Every line is as the tasks stand. -/
def Fair (m : Machine σ ε) (posts : TaskId → Post) : Prop :=
  ∀ lock, Lined (m.line lock) posts lock

theorem Fair.of_lines (fair : m.Fair posts) (lines : m'.lines = m.lines) : m'.Fair posts := by
  intro lock
  have fair := fair lock
  rwa [line, ← lines] at fair

theorem line_enqueue (m : Machine σ ε) (lock other : Lock) (owner : TaskId) :
    (m.enqueue lock owner).line other =
      if lock = other then m.line lock ++ [owner] else m.line other := by
  unfold line enqueue
  rw [Keyed.get?_put]
  split <;> rfl

theorem line_release (m : Machine σ ε) (lock other : Lock) :
    (m.release lock).line other = if lock = other then (m.line lock).tail else m.line other := by
  unfold line release
  rw [Keyed.get?_put]
  split <;> rfl

/-- What becomes of a task that goes on. -/
def GoesTo (posts : TaskId → Post) (owner : TaskId) (next : Machine σ ε × Task σ ε α) : Prop :=
  ∃ post, next.1.Fair (Function.update posts owner post) ∧ next.2.At post

/-- A task goes on without the locks. -/
theorem Fair.aside (fair : m.Fair posts) {task : Task σ ε α} (lines : m'.lines = m.lines)
    (stands : task.At (posts owner)) : GoesTo posts owner (m', task) := by
  refine ⟨posts owner, ?_, stands⟩
  rw [Function.update_eq_self]
  exact fair.of_lines lines

theorem isHeldBy_iff {lock : Lock} :
    m.isHeldBy lock owner = true ↔ (m.line lock).head? = some owner := by
  simp [isHeldBy]

theorem Fair.serve {lock : Lock} (fair : m.Fair posts) (stands : posts owner = ⟨none, some lock⟩)
    (first : m.isHeldBy lock owner = true) :
    m.Fair (Function.update posts owner ⟨some lock, none⟩) := by
  intro other
  by_cases same : lock = other
  · subst same
    exact (fair lock).serve (isHeldBy_iff.mp first) (by rw [stands])
  · exact (fair other).aside (by simp [stands, same]) (by simp [stands, same])

theorem Fair.join {lock : Lock} (fair : m.Fair posts) (stands : posts owner = ⟨none, none⟩) :
    (m.enqueue lock owner).Fair (Function.update posts owner ⟨none, some lock⟩) := by
  intro other
  rw [line_enqueue]
  split
  · next same =>
    subst same
    exact (fair lock).join stands
  · next same => exact (fair other).aside (by simp [stands]) (by simp [stands, same])

theorem Fair.leave {lock : Lock} (fair : m.Fair posts) (stands : posts owner = ⟨some lock, none⟩) :
    (m.release lock).Fair (Function.update posts owner ⟨none, none⟩) := by
  intro other
  rw [line_release]
  split
  · next same =>
    subst same
    exact (fair lock).leave stands
  · next same => exact (fair other).aside (by simp [stands, same]) (by simp [stands])

theorem Fair.perform {op : WorkOp σ ε} {next : op.Reply → Job σ ε α} (fair : m.Fair posts)
    (stands : Task.At (.ready (.perform op next)) (posts owner)) :
    GoesTo posts owner (m.perform owner op next) := by
  obtain ⟨idle, tidy⟩ := stands.ready
  have goesOn {m' : Machine σ ε} (lines : m'.lines = m.lines) (unused : ∀ lock, ¬ op.Uses lock)
      (reply : op.Reply) : GoesTo posts owner (m', .ready (next reply)) :=
    fair.aside lines ⟨stands.wanted, _, .ready _, (Job.holding_perform_iff unused).mp tidy reply⟩
  cases op with
  | eval op =>
      cases op with
      | wait ticket limit =>
          have waits (deadline : Option Nat) :
              GoesTo posts owner (m, .waiting ticket deadline next) :=
            fair.aside rfl ⟨stands.wanted, _, .waiting ticket limit deadline next, tidy⟩
          unfold Machine.perform
          dsimp only
          cases m.waiters.take? ticket with
          | some found => exact goesOn rfl (fun _ => id) _
          | none =>
              cases limit with
              | none => exact waits none
              | some n =>
                  cases n with
                  | zero => exact goesOn rfl (fun _ => id) none
                  | succ n => exact waits (some (m.now + (n + 1)))
      | native call => exact fair.aside rfl stands
      | register eval thread => exact goesOn rfl (fun _ => id) _
      | cancel eval => exact goesOn rfl (fun _ => id) ()
  | update f => exact goesOn rfl (fun _ => id) m.state
  | emit event => exact goesOn rfl (fun _ => id) ()
  | acquire lock =>
      obtain ⟨held, tidy⟩ := Job.holding_acquire_iff.mp tidy
      have joined : (m.enqueue lock owner).Fair _ := fair.join (Post.ext held idle)
      unfold Machine.perform
      dsimp only
      split
      · next first =>
        have served := joined.serve (Function.update_self ..) first
        rw [Function.update_idem] at served
        exact ⟨_, served, Task.at_ready tidy⟩
      · exact ⟨_, joined, rfl, _, .blocked lock next, .acquire tidy⟩
  | release lock =>
      obtain ⟨held, tidy⟩ := Job.holding_release_iff.mp tidy
      exact ⟨_, fair.leave (Post.ext held idle), Task.at_ready tidy⟩

theorem Fair.wake? {task task' : Task σ ε α} (fair : m.Fair posts) (stands : task.At (posts owner))
    (woken : m.wake? owner task = some (m', task')) : GoesTo posts owner (m', task') := by
  cases task with
  | ready p =>
      cases woken
      exact fair.aside rfl stands
  | waiting ticket deadline next =>
      obtain ⟨_, -, same⟩ := Option.map_eq_some_iff.mp woken
      cases same
      exact fair.aside rfl (stands.waiting _)
  | blocked lock next =>
      obtain ⟨first, same⟩ := Option.ite_none_right_eq_some.mp woken
      cases same
      obtain ⟨post, tidy⟩ := stands.blocked
      exact ⟨_, fair.serve post first, Task.at_ready tidy⟩
  | finished a => cases woken

end Machine

/-! ## Runs -/

/-- Both tasks stand in the lines that they belong to. -/
def Run.Fair (r : Run σ ε α) : Prop :=
  ∃ posts, r.machine.Fair posts ∧ r.request.At (posts .request) ∧
    r.machine.dispatcher.At (posts .dispatcher)

namespace Run

variable {handle : Option (NativeEvent → Job σ ε Unit)} {r r' : Run σ ε α}

/-- Nothing but notifications, time and the turn has changed. -/
theorem Fair.aside (fair : r.Fair) (lines : r'.machine.lines = r.machine.lines)
    (request : r'.request = r.request)
    (dispatcher : r'.machine.dispatcher = r.machine.dispatcher) : r'.Fair := by
  obtain ⟨posts, lined, stands, stands'⟩ := fair
  rw [← request] at stands
  rw [← dispatcher] at stands'
  exact ⟨posts, lined.of_lines lines, stands, stands'⟩

section Goes

variable {posts : TaskId → Post} {m : Machine σ ε}

theorem fair_of_request {task : Task σ ε α} (goes : Machine.GoesTo posts .request (m, task))
    (others : m.dispatcher.At (posts .dispatcher)) (turn : Option TaskId) :
    Fair ⟨m, task, turn⟩ := by
  obtain ⟨post, lined, stands⟩ := goes
  refine ⟨_, lined, ?_, ?_⟩
  · rw [Function.update_self]
    exact stands
  · rw [Function.update_of_ne (by decide)]
    exact others

theorem fair_of_dispatcher {request : Task σ ε α} {task : Task σ ε Unit}
    (goes : Machine.GoesTo posts .dispatcher (m, task)) (others : request.At (posts .request))
    (turn : Option TaskId) : Fair ⟨{ m with dispatcher := task }, request, turn⟩ := by
  obtain ⟨post, lined, stands⟩ := goes
  refine ⟨_, lined, ?_, ?_⟩
  · rw [Function.update_of_ne (by decide)]
    exact others
  · rw [Function.update_self]
    exact stands

theorem leadsTo_advance {P : Run σ ε α → Prop} {owner : TaskId} {task : Task σ ε β}
    {put : Machine σ ε → Task σ ε β → Run σ ε α} (lined : r.machine.Fair posts)
    (stands : task.At (posts owner))
    (gone : ∀ m task' turn, r.machine.Stays m → Machine.GoesTo posts owner (m, task') →
      P { put m task' with turn := turn })
    (still : P { r with turn := none }) : (r.advance owner task put).LeadsTo P := by
  cases task with
  | ready program =>
      cases program with
      | done a =>
          obtain ⟨idle, tidy⟩ := stands.ready
          refine gone _ _ _ ⟨rfl, rfl, rfl⟩ (lined.aside rfl ⟨stands.wanted, _, .finished a, tidy⟩)
      | perform op next =>
          by_cases native : ∃ call, op = .eval (.native call)
          · obtain ⟨call, rfl⟩ := native
            intro reply
            obtain ⟨idle, tidy⟩ := stands.ready
            refine gone _ _ _ ⟨rfl, rfl, rfl⟩ (lined.aside rfl ⟨stands.wanted, _, .ready _, ?_⟩)
            exact (Job.holding_perform_iff fun _ => id).mp tidy reply
          · rw [advance_perform (not_exists.mp native)]
            exact gone _ _ _ (r.machine.stays_perform owner op next) (lined.perform stands)
  | waiting ticket deadline next => exact still
  | blocked lock next => exact still
  | finished a => exact still

end Goes

/-- The dispatcher handles notifications with tidy tasks. -/
def Tidies (handle : Option (NativeEvent → Job σ ε Unit)) : Prop :=
  ∀ f ∈ handle, ∀ event, (f event).Tidy

theorem Fair.routeNext {event : NativeEvent} {rest : List NativeEvent} (fair : r.Fair)
    (inbox : r.machine.inbox = event :: rest) : (r.routeNext event rest).LeadsTo Fair := by
  obtain ⟨resumed, m', routed, same⟩ := Machine.exists_routed inbox
  have lines : m'.lines = r.machine.lines := by rw [routed.others]
  have dispatcher : m'.dispatcher = r.machine.dispatcher := by rw [routed.others]
  rw [same]
  cases resumed with
  | true => exact fun _ => fair.aside lines rfl dispatcher
  | false => exact fair.aside lines rfl dispatcher

theorem Fair.expireFirst (fair : r.Fair) : r.expireFirst.LeadsTo Fair := by
  obtain ⟨posts, lined, stands, stands'⟩ := fair
  have request (now : Nat) :
      Fair (putRequest { r.machine with now } r.request.expire r) :=
    fair_of_request (lined.aside rfl stands.expire) stands' r.turn
  have dispatcher (now : Nat) :
      Fair (putDispatcher { r.machine with now } r.machine.dispatcher.expire r) :=
    fair_of_dispatcher (m := { r.machine with now }) (lined.aside rfl stands'.expire) stands r.turn
  unfold Run.expireFirst
  dsimp only
  split
  case h_1 =>
    split
    · exact request _
    · exact dispatcher _
  case h_2 => exact request _
  case h_3 => exact dispatcher _
  case h_4 => trivial

theorem Fair.resume? {owner : TaskId} (tidies : Tidies handle) (fair : r.Fair)
    (resumed : r.resume? handle owner = some r') : r'.Fair := by
  obtain ⟨posts, lined, stands, stands'⟩ := fair
  cases owner with
  | request =>
      obtain ⟨⟨m, task⟩, woken, rfl⟩ := Option.map_eq_some_iff.mp resumed
      have stays := Machine.stays_wake? woken
      exact fair_of_request (lined.wake? stands woken) (stays.dispatcher ▸ stands') _
  | dispatcher =>
      have resumed : r.resumeDispatcher? handle = some r' := resumed
      unfold resumeDispatcher? at resumed
      split at resumed
      case h_1 m task woken =>
        cases resumed
        exact fair_of_dispatcher (lined.wake? stands' woken) stands _
      case h_2 =>
        split at resumed
        case h_1 f event rest idle _ _ =>
          cases resumed
          have free := (idle ▸ stands').finished
          have begun : Task.At (.ready (f event)) (posts .dispatcher) := by
            rw [free]
            exact Task.at_ready (tidies f rfl event)
          exact fair_of_dispatcher (m := { r.machine with queue := rest })
            (lined.aside rfl begun) stands _
        case h_2 => cases resumed

theorem Fair.step (tidies : Tidies handle) (first : TaskId) (fair : r.Fair) :
    (r.step handle first).LeadsTo Fair := by
  have still : Fair { r with turn := none } := fair.aside rfl rfl rfl
  unfold Run.step
  split
  case h_1 =>
    obtain ⟨posts, lined, stands, stands'⟩ := fair
    refine leadsTo_advance lined stands (fun m task' turn stays goes => ?_) still
    exact fair_of_request goes (stays.dispatcher ▸ stands') turn
  case h_2 =>
    obtain ⟨posts, lined, stands, stands'⟩ := fair
    refine leadsTo_advance lined stands' (fun m task' turn _ goes => ?_) still
    exact fair_of_dispatcher goes stands turn
  case h_3 =>
    unfold choose
    split
    case h_1 event rest inbox => exact fair.routeNext inbox
    case h_2 =>
      split
      case h_1 resumed => exact fair.resume? tidies resumed
      case h_2 =>
        split
        case h_1 resumed => exact fair.resume? tidies resumed
        case h_2 => exact fair.expireFirst

theorem Fair.passTurn (tidies : Tidies handle) (fair : r.Fair) : (r.passTurn handle).Fair := by
  unfold Run.passTurn
  split
  case h_1 owner _ =>
    cases resumed : r.resume? handle owner.other with
    | none => exact fair
    | some r' => exact fair.resume? tidies resumed
  case h_2 => exact fair

/-- However long a machine works. -/
theorem Fair.toRest {backend : Backend τ} (tidies : Tidies handle) (fair : r.Fair) (fuel : Nat)
    (t : τ) : (r.toRest backend handle fuel t).1.Fair := by
  refine keeps_toRest ?_ ?_ ?_ fair fuel t
  · exact fun r fair => fair.step tidies backend.first
  · exact fun r fair => fair.passTurn tidies
  · exact fun r call t fair => fair.aside rfl rfl rfl

end Run

/-! ## Where nothing more can happen -/

/-- A task waits for an evaluation that may take forever, and has not come to its end. -/
def Machine.Pends (m : Machine σ ε) (task : Task σ ε α) : Prop :=
  ∃ ticket next, task = .waiting ticket none next ∧ m.waiters.take? ticket = none

/-- Whether a task waits for such an evaluation itself, or for a task that does. -/
inductive Run.Pends (r : Run σ ε α) : Prop where
  | evaluation : r.machine.Pends r.request → Pends r
  | lock {lock : Lock} {next : Unit → Job σ ε α} : r.request = .blocked lock next →
      r.machine.isHeldBy lock .dispatcher = true → r.machine.Pends r.machine.dispatcher → Pends r

namespace Run

variable {handle : Option (NativeEvent → Job σ ε Unit)} {r : Run σ ε α}

/-- All that a task can rest for. -/
inductive RestsFor (m : Machine σ ε) (owner : TaskId) (task : Task σ ε β) : Prop where
  | ended {b : β} : task = .finished b → RestsFor m owner task
  | evaluation : m.Pends task → RestsFor m owner task
  | lock {lock : Lock} {next : Unit → Job σ ε β} : task = .blocked lock next →
      (m.line lock).head? ≠ some owner → RestsFor m owner task

theorem Rests.restsFor {owner : TaskId} {task : Task σ ε β} (rests : r.Rests owner task) :
    RestsFor r.machine owner task := by
  obtain ⟨waits, unlimited⟩ := rests
  cases task with
  | ready p => cases waits
  | waiting ticket deadline next =>
      cases unlimited
      exact .evaluation ⟨ticket, next, rfl, Option.map_eq_none_iff.mp waits⟩
  | blocked lock next =>
      refine .lock rfl fun first => ?_
      rw [Machine.wake?, if_pos (Machine.isHeldBy_iff.mpr first)] at waits
      cases waits
  | finished b => exact .ended rfl

/-- Who is the first in a line and rests waits for an evaluation. -/
theorem Rests.pends_of_first {owner : TaskId} {task : Task σ ε β} {posts : TaskId → Post}
    {lock : Lock} (rests : r.Rests owner task) (lined : r.machine.Fair posts)
    (stands : task.At (posts owner)) (first : (r.machine.line lock).head? = some owner) :
    r.machine.Pends task := by
  have among := ((lined lock).mem_iff owner).mp (List.mem_of_head? first)
  cases rests.restsFor with
  | ended same =>
      subst same
      simp [stands.finished] at among
  | evaluation pends => exact pends
  | lock same behind =>
      subst same
      obtain ⟨post, -⟩ := stands.blocked
      obtain rfl : _ = lock := by simpa [post] using among
      exact absurd first behind

/-- Where nothing more can happen, the request has come to its end, or an evaluation is waited
for. -/
theorem Fair.rests (fair : r.Fair) {first : TaskId} (rests : r.step handle first = .rest) :
    r.request.result?.isSome = true ∨ r.Pends := by
  obtain ⟨posts, lined, stands, stands'⟩ := fair
  obtain ⟨request, dispatcher⟩ := rests_of_step rests
  cases request.restsFor with
  | ended same =>
      rw [same]
      exact .inl rfl
  | evaluation pends => exact .inr (.evaluation pends)
  | @lock lock next same behind =>
      obtain ⟨post, -⟩ := (same ▸ stands).blocked
      have among : .request ∈ r.machine.line lock := ((lined lock).mem_iff _).mpr (by simp [post])
      obtain ⟨owner, ahead⟩ : ∃ owner, (r.machine.line lock).head? = some owner := by
        cases line : r.machine.line lock with
        | nil => simp [line] at among
        | cons owner rest => exact ⟨owner, rfl⟩
      cases owner with
      | request => exact absurd ahead behind
      | dispatcher =>
          have held := Machine.isHeldBy_iff.mpr ahead
          exact .inr (.lock same held (dispatcher.pends_of_first lined stands' ahead))

end Run

end ManagedDebugger
