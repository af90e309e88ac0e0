import ManagedDebugger.Proofs.Eval.Waiters
import ManagedDebugger.Proofs.Session.Moves

/-!
# Who learns of which notification

Notifications are routed in the order in which they were raised, while evaluations are registered
and cancelled in between. Whoever waits for an evaluation learns how that very evaluation ended,
once. The target goes on after a stop that belongs to an evaluation somebody waits for at that time.
All that is left goes to the dispatcher, in order.
-/

namespace ManagedDebugger

variable {σ ε α τ : Type}

namespace Machine

/-- One thing that happens, and the machine behind it. -/
inductive Happens : Machine σ ε → Passage → Machine σ ε → Prop where
  | raised {m : Machine σ ε} (events : List NativeEvent) :
      Happens m (.raised events) (m.raise events)
  | routed {α : Type} {r r' : Run σ ε α} {event : NativeEvent} {rest : List NativeEvent} :
      r.machine.inbox = event :: rest → r.routeNext event rest = .internal r' →
      Happens r.machine (.routed event false) r'.machine
  | resumed {α : Type} {r : Run σ ε α} {event : NativeEvent} {rest : List NativeEvent}
      {next : NativeCall.continueProcess.Reply → Run σ ε α} :
      r.machine.inbox = event :: rest → r.routeNext event rest = .call .continueProcess next →
      ∀ reply, Happens r.machine (.routed event true) (next reply).machine
  | registered {m : Machine σ ε} (eval : EvalId) (thread : ThreadId) :
      Happens m (.registered eval thread (m.waiters.register eval thread).1)
        { m with waiters := (m.waiters.register eval thread).2 }
  | cancelled {m : Machine σ ε} (eval : EvalId) :
      Happens m (.cancelled eval) { m with waiters := m.waiters.cancel eval }
  | read {m : Machine σ ε} {ticket : Ticket} {d : Delivery} {waiters : Waiters} :
      m.waiters.take? ticket = some (d, waiters) → Happens m (.read ticket d) { m with waiters }
  | handled {m : Machine σ ε} {event : NativeEvent} {rest : List NativeEvent} :
      m.queue = event :: rest → Happens m (.handled event) { m with queue := rest }

/-- One thing after another, in any order. -/
inductive Runs : List Passage → Machine σ ε → Prop where
  | start (state : σ) : Runs [] (.start state)
  /-- Tasks go on, and time passes. -/
  | aside {trace : List Passage} {m m' : Machine σ ε} :
      Runs trace m → m'.waiters = m.waiters → m'.inbox = m.inbox → m'.queue = m.queue →
      Runs trace m'
  | next {trace : List Passage} {p : Passage} {m m' : Machine σ ε} :
      Runs trace m → m.Happens p m' → Runs (trace ++ [p]) m'

variable {m m' : Machine σ ε} {p : Passage} {trace : List Passage} {event : NativeEvent}
  {resumed : Bool} {eval : EvalId} {thread : ThreadId} {ticket : Ticket} {d : Delivery}

/-! ## The router -/

/-- All that the router can do with a notification. -/
structure Routed (m : Machine σ ε) (event : NativeEvent) (resumed : Bool) (m' : Machine σ ε) :
    Prop where
  inbox : m.inbox = event :: m'.inbox
  waiters : m'.waiters = (m.waiters.route event).2
  queue : m'.queue = m.queue ++ (Passage.routed event resumed).forwarded?.toList
  resumed : resumed = true ↔
    ∃ thread, event.stopped? = some thread ∧ m.waiters.inFlight thread = true
  others : m' = { m with waiters := m'.waiters, inbox := m'.inbox, queue := m'.queue }

/-- Whatever was raised can be routed, in one way. -/
theorem exists_routed {r : Run σ ε α} {rest : List NativeEvent}
    (inbox : r.machine.inbox = event :: rest) :
    ∃ resumed m', Routed r.machine event resumed m' ∧
      r.routeNext event rest =
        if resumed then .call .continueProcess fun _ => { r with machine := m' }
        else .internal { r with machine := m' } := by
  cases ended : event.ended? with
  | some ended' =>
      have passing : event.stopped? = none := by
        cases event <;> first | rfl | cases ended
      refine ⟨false, { r.machine with inbox := rest, waiters := (r.machine.waiters.route event).2 },
        ⟨inbox, rfl, ?_, ?_, rfl⟩, ?_⟩
      · simp [Passage.forwarded?, ended]
      · simp [passing]
      · simp [Run.routeNext, Waiters.route_eq, ended]
  | none =>
      by_cases running : ∃ thread, event.stopped? = some thread ∧
          r.machine.waiters.inFlight thread = true
      · refine ⟨true,
          { r.machine with inbox := rest, waiters := (r.machine.waiters.route event).2 },
          ⟨inbox, rfl, (List.append_nil _).symm, by simpa using running, rfl⟩, ?_⟩
        obtain ⟨thread, stopped, running⟩ := running
        simp [Run.routeNext, Waiters.route_eq, ended, stopped, running]
      · refine ⟨false,
          { r.machine with
            inbox := rest, waiters := (r.machine.waiters.route event).2
            queue := r.machine.queue ++ [event] },
          ⟨inbox, rfl, ?_, by simpa using running, rfl⟩, ?_⟩
        · simp [Passage.forwarded?, ended]
        · cases stopped : event.stopped? with
          | none => simp [Run.routeNext, Waiters.route_eq, ended, stopped]
          | some thread =>
              have still : r.machine.waiters.inFlight thread = false := by
                simpa [stopped] using running
              simp [Run.routeNext, Waiters.route_eq, ended, stopped, still]

theorem Happens.routed_eq (happens : m.Happens (.routed event resumed) m') :
    Routed m event resumed m' := by
  cases happens with
  | routed inbox routed =>
      obtain ⟨resumed, m', result, same⟩ := exists_routed inbox
      rw [routed] at same
      cases resumed with
      | true => cases same
      | false =>
          cases same
          exact result
  | resumed inbox routed reply =>
      obtain ⟨resumed, m', result, same⟩ := exists_routed inbox
      rw [routed] at same
      cases resumed with
      | true =>
          cases same
          exact result
      | false => cases same

/-- The router never has to stop. -/
theorem exists_happens_routed {rest : List NativeEvent} (inbox : m.inbox = event :: rest) :
    ∃ resumed m', m.Happens (.routed event resumed) m' := by
  let r : Run σ ε Unit := ⟨m, .finished (), none⟩
  obtain ⟨resumed, m', -, same⟩ := exists_routed (show r.machine.inbox = event :: rest from inbox)
  cases resumed with
  | true => exact ⟨true, m', .resumed inbox same (.ok ())⟩
  | false => exact ⟨false, m', .routed inbox same⟩

/-! ## One step -/

theorem Routed.turns (routed : Routed m event resumed m') :
    m.waiters.Turns (.routed event resumed) m'.waiters := by
  rw [routed.waiters, Waiters.route_eq]
  cases ended : event.ended? with
  | some ended' => exact .settled (by simp [Passage.settled?, ended])
  | none =>
      have silent : (Passage.routed event resumed).settled? = none := by
        simp [Passage.settled?, ended]
      cases event.stopped? with
      | some thread => exact .kept silent rfl fun _ => rfl
      | none => exact .kept silent rfl fun _ => rfl

theorem Happens.turns (happens : m.Happens p m') : m.waiters.Turns p m'.waiters := by
  cases happens with
  | raised events => exact .kept rfl rfl fun _ => rfl
  | routed inbox routed => exact (Happens.routed inbox routed).routed_eq.turns
  | resumed inbox routed reply => exact (Happens.resumed inbox routed reply).routed_eq.turns
  | registered eval thread => exact .registered m.waiters eval thread
  | cancelled eval => exact .settled rfl
  | read taken => exact .read taken
  | handled queue => exact .kept rfl rfl fun _ => rfl

/-- Notifications wait in two queues, and leave them in the order in which they came. -/
theorem Happens.queues (happens : m.Happens p m') :
    m.inbox ++ p.raises = p.routed?.toList ++ m'.inbox ∧
      m.queue ++ p.forwarded?.toList = p.handled?.toList ++ m'.queue := by
  have routes {event : NativeEvent} {resumed : Bool} (routed : Routed m event resumed m') :
      m.inbox ++ [] = [event] ++ m'.inbox ∧
        m.queue ++ (Passage.routed event resumed).forwarded?.toList = [] ++ m'.queue :=
    ⟨(List.append_nil _).trans routed.inbox, routed.queue.symm⟩
  cases happens with
  | raised events => exact ⟨rfl, List.append_nil _⟩
  | routed inbox routed => exact routes (Happens.routed inbox routed).routed_eq
  | resumed inbox routed reply => exact routes (Happens.resumed inbox routed reply).routed_eq
  | registered eval thread => exact ⟨List.append_nil _, List.append_nil _⟩
  | cancelled eval => exact ⟨List.append_nil _, List.append_nil _⟩
  | read taken => exact ⟨List.append_nil _, List.append_nil _⟩
  | handled queue => exact ⟨List.append_nil _, (List.append_nil _).trans queue⟩

/-! ## A run -/

theorem Runs.tracks (runs : Runs trace m) (nodup : (trace.filterMap Passage.eval?).Nodup) :
    m.waiters.Tracks trace := by
  induction runs with
  | start state => exact Waiters.tracks_empty
  | aside _ waiters _ _ inductionHypothesis => exact waiters ▸ inductionHypothesis nodup
  | next _ happens inductionHypothesis =>
      have earlier := (List.nodup_append.mp (List.filterMap_append ▸ nodup)).1
      exact (inductionHypothesis earlier).next happens.turns nodup

theorem Runs.queues (runs : Runs trace m) :
    trace.flatMap Passage.raises = trace.filterMap Passage.routed? ++ m.inbox ∧
      trace.filterMap Passage.forwarded? = trace.filterMap Passage.handled? ++ m.queue := by
  induction runs with
  | start state => exact ⟨rfl, rfl⟩
  | aside _ _ inbox queue inductionHypothesis =>
      rw [inbox, queue]
      exact inductionHypothesis
  | @next trace p m m' _ happens inductionHypothesis =>
      obtain ⟨inbox, queue⟩ := inductionHypothesis
      obtain ⟨raised, forwarded⟩ := happens.queues
      constructor
      · calc (trace ++ [p]).flatMap Passage.raises
            = trace.filterMap Passage.routed? ++ (m.inbox ++ p.raises) := by
              rw [List.flatMap_append, inbox, List.flatMap_singleton, List.append_assoc]
          _ = (trace ++ [p]).filterMap Passage.routed? ++ m'.inbox := by
              rw [raised, List.filterMap_append, List.append_assoc]
              cases p <;> rfl
      · calc (trace ++ [p]).filterMap Passage.forwarded?
            = trace.filterMap Passage.handled? ++ (m.queue ++ p.forwarded?.toList) := by
              rw [List.filterMap_append, queue, List.append_assoc]
              congr 2
          _ = (trace ++ [p]).filterMap Passage.handled? ++ m'.queue := by
              rw [forwarded, List.filterMap_append, List.append_assoc]
              cases p <;> rfl

/-- Somebody waits for an evaluation on the thread. -/
def Evaluates (trace : List Passage) (thread : ThreadId) : Prop :=
  ∃ eval ticket,
    Unsettled (Passage.settles? eval) trace (.registered eval thread ticket)

theorem evaluates_iff (tracks : m.waiters.Tracks trace) :
    Evaluates trace thread ↔ m.waiters.inFlight thread = true := by
  rw [Waiters.inFlight_iff tracks.distinct, Evaluates]
  simp only [tracks.pending]

/-- The target is made to go on after a stop if somebody waits for an evaluation on its thread at
that time. -/
theorem Runs.resumed_iff (runs : Runs trace m) (nodup : (trace.filterMap Passage.eval?).Nodup)
    {before after : List Passage} (split : trace = before ++ .routed event resumed :: after) :
    resumed = true ↔ ∃ thread, event.stopped? = some thread ∧ Evaluates before thread := by
  induction runs generalizing after with
  | start state => simp at split
  | aside _ _ _ _ inductionHypothesis => exact inductionHypothesis nodup split
  | next runs happens inductionHypothesis =>
      have earlier := (List.nodup_append.mp (List.filterMap_append ▸ nodup)).1
      rcases concat_eq_split_iff.mp split with ⟨rfl, rfl, -⟩ | ⟨rest, -, split⟩
      · simp only [evaluates_iff (runs.tracks earlier)]
        exact happens.routed_eq.resumed
      · exact inductionHypothesis earlier split

/-- The end of an evaluation for which nobody waits is dropped. -/
theorem Routed.dropped (routed : Routed m event resumed m') {outcome : EvalOutcome}
    (ended : event.ended? = some (eval, outcome)) (absent : m.waiters.pending.get? eval = none) :
    m' = { m with inbox := m.inbox.tail } := by
  have waiters : m'.waiters = m.waiters := by
    rw [routed.waiters, Waiters.route_eq, ended]
    exact Waiters.settle_of_absent absent
  have queue : m'.queue = m.queue := by
    rw [routed.queue]
    cases resumed <;> simp [Passage.forwarded?, ended]
  have inbox : m'.inbox = m.inbox.tail := by rw [routed.inbox, List.tail_cons]
  calc m' = { m with waiters := m'.waiters, inbox := m'.inbox, queue := m'.queue } := routed.others
    _ = { m with inbox := m.inbox.tail } := by rw [waiters, queue, inbox]

/-- Who learns what of everything that was raised. -/
structure Routes (trace : List Passage) (m : Machine σ ε) : Prop where
  /-- Everybody who waits has a ticket of their own. -/
  tickets : (trace.filterMap Passage.ticket?).Nodup
  /-- All that a ticket is told is how the evaluation ended first behind the registration, or that
  it was given up before. -/
  outcome : ∀ before eval thread ticket after,
    trace = before ++ .registered eval thread ticket :: after →
    everTold trace m.waiters ticket = (after.findSome? (Passage.settles? eval)).toList
  /-- Nothing comes of the end of an evaluation for which nobody waits. -/
  dropped : ∀ event resumed m' eval outcome, m.Happens (.routed event resumed) m' →
    event.ended? = some (eval, outcome) →
    (∀ thread ticket, ¬ Unsettled (Passage.settles? eval) trace (.registered eval thread ticket)) →
    m' = { m with inbox := m.inbox.tail }
  /-- The target goes on after a stop on a thread that runs an evaluation, and after no other. -/
  resumed : ∀ before event resumed after, trace = before ++ .routed event resumed :: after →
    (resumed = true ↔ ∃ thread, event.stopped? = some thread ∧ Evaluates before thread)
  /-- Whatever was raised is routed, or still can be, and nothing else is. -/
  routed : trace.flatMap Passage.raises = trace.filterMap Passage.routed? ++ m.inbox
  routable : ∀ event rest, m.inbox = event :: rest →
    ∃ resumed m', m.Happens (.routed event resumed) m'
  /-- The dispatcher has all that is for it, or still gets it, and nothing else. -/
  forwarded : trace.filterMap Passage.forwarded? = trace.filterMap Passage.handled? ++ m.queue

/-- As long as no evaluation is registered twice, notifications find their way. -/
theorem routes_of_runs (runs : Runs trace m) (distinct : (trace.filterMap Passage.eval?).Nodup) :
    Routes trace m := by
  have tracks := runs.tracks distinct
  constructor
  case tickets => exact tracks.nodup
  case outcome => exact tracks.told
  case dropped =>
    intro event resumed m' eval outcome happens ended unawaited
    refine happens.routed_eq.dropped ended ?_
    cases found : m.waiters.pending.get? eval with
    | none => rfl
    | some waiter => exact absurd ((tracks.pending _ _ _).mp found) (unawaited _ _)
  case resumed => exact fun _ _ _ _ split => runs.resumed_iff distinct split
  case routed => exact runs.queues.1
  case routable => exact fun _ _ inbox => exists_happens_routed inbox
  case forwarded => exact runs.queues.2

/-- Two evaluations on thread 10 end the other way round, with a stop on their thread after each. A
third one is given up before it ends. -/
def outOfOrder : List Passage :=
  [.registered ⟨1⟩ 10 0, .registered ⟨2⟩ 10 1, .registered ⟨3⟩ 11 2,
    .raised [.evalComplete 10 ⟨2⟩ none, .breakpointHit 10 ⟨4⟩, .evalComplete 10 ⟨1⟩ none,
      .breakpointHit 10 ⟨4⟩, .evalComplete 11 ⟨3⟩ none],
    .routed (.evalComplete 10 ⟨2⟩ none) false, .routed (.breakpointHit 10 ⟨4⟩) true,
    .cancelled ⟨3⟩, .routed (.evalComplete 10 ⟨1⟩ none) false,
    .routed (.breakpointHit 10 ⟨4⟩) false, .routed (.evalComplete 11 ⟨3⟩ none) false,
    .read 0 (.outcome (.completed none)), .handled (.breakpointHit 10 ⟨4⟩)]

theorem exists_runs_outOfOrder : ∃ m : Machine Unit Unit, Runs outOfOrder m := by
  have started : Runs [] (.start () : Machine Unit Unit) := .start ()
  have registered := ((started.next (.registered ⟨1⟩ 10)).next (.registered ⟨2⟩ 10)).next
    (.registered ⟨3⟩ 11)
  have raised := registered.next (.raised [.evalComplete 10 ⟨2⟩ none, .breakpointHit 10 ⟨4⟩,
    .evalComplete 10 ⟨1⟩ none, .breakpointHit 10 ⟨4⟩, .evalComplete 11 ⟨3⟩ none])
  let run (m : Machine Unit Unit) : Run Unit Unit Unit := ⟨m, .finished (), none⟩
  have first := raised.next (.routed (r := run _) rfl rfl)
  have stopped := first.next (.resumed (r := run _) rfl rfl (.ok ()))
  have second := (stopped.next (.cancelled ⟨3⟩)).next (.routed (r := run _) rfl rfl)
  have third := (second.next (.routed (r := run _) rfl rfl)).next (.routed (r := run _) rfl rfl)
  exact ⟨_, (third.next (.read rfl)).next (.handled rfl)⟩

theorem routes_outOfOrder : (outOfOrder.filterMap Passage.eval?).Nodup ∧
    ∃ m : Machine Unit Unit, Runs outOfOrder m ∧ Routes outOfOrder m := by
  obtain ⟨m, runs⟩ := exists_runs_outOfOrder
  exact ⟨by decide, m, runs, routes_of_runs runs (by decide)⟩

/-! ## What a machine does -/

/-- Nothing but what is listed above happens to notifications and to those who wait. -/
def Onward (m m' : Machine σ ε) : Prop :=
  ∀ trace, Runs trace m → ∃ more, Runs (trace ++ more) m'

theorem Onward.refl (m : Machine σ ε) : m.Onward m :=
  fun trace runs => ⟨[], trace.append_nil.symm ▸ runs⟩

theorem Onward.trans {m'' : Machine σ ε} (first : m.Onward m') (second : m'.Onward m'') :
    m.Onward m'' := by
  intro trace runs
  obtain ⟨more, runs⟩ := first trace runs
  obtain ⟨others, runs⟩ := second _ runs
  exact ⟨more ++ others, List.append_assoc trace more others ▸ runs⟩

theorem Onward.aside (waiters : m'.waiters = m.waiters) (inbox : m'.inbox = m.inbox)
    (queue : m'.queue = m.queue) : m.Onward m' := by
  intro trace runs
  refine ⟨[], ?_⟩
  rw [List.append_nil]
  exact runs.aside waiters inbox queue

theorem Happens.onward (happens : m.Happens p m') : m.Onward m' :=
  fun _ runs => ⟨[p], runs.next happens⟩

theorem onward_perform (m : Machine σ ε) (owner : TaskId) (op : WorkOp σ ε)
    (next : op.Reply → Job σ ε α) : m.Onward (m.perform owner op next).1 := by
  cases op with
  | eval op =>
      cases op with
      | native call => exact .refl m
      | register eval thread => exact (Happens.registered eval thread).onward
      | cancel eval => exact (Happens.cancelled eval).onward
      | wait ticket limit =>
          unfold perform
          dsimp only
          cases taken : m.waiters.take? ticket with
          | some found => exact (Happens.read taken).onward
          | none =>
              cases limit with
              | none => exact .refl m
              | some n => cases n <;> exact .refl m
  | update f => exact .aside rfl rfl rfl
  | emit event => exact .aside rfl rfl rfl
  | acquire lock => exact .aside rfl rfl rfl
  | release lock => exact .aside rfl rfl rfl

theorem onward_wake? {owner : TaskId} {task task' : Task σ ε α}
    (woken : m.wake? owner task = some (m', task')) : m.Onward m' := by
  cases task with
  | ready program =>
      cases woken
      exact .refl m
  | waiting ticket deadline next =>
      obtain ⟨⟨d, waiters⟩, taken, same⟩ := Option.map_eq_some_iff.mp woken
      cases same
      exact (Happens.read taken).onward
  | blocked lock next =>
      obtain ⟨-, same⟩ := Option.ite_none_right_eq_some.mp woken
      cases same
      exact .refl m
  | finished a => cases woken

end Machine

/-- Wherever a step leads, whatever the target replies. -/
def Step.Onward (m : Machine σ ε) : Step σ ε α → Prop
  | internal r => m.Onward r.machine
  | call _ next => ∀ reply, m.Onward (next reply).machine
  | rest => True

namespace Run

variable {handle : Option (NativeEvent → Job σ ε Unit)} {r r' : Run σ ε α} {β : Type}

theorem onward_advance {owner : TaskId} {task : Task σ ε β}
    {put : Machine σ ε → Task σ ε β → Run σ ε α}
    (kept : ∀ (m : Machine σ ε) (task : Task σ ε β), m.Onward (put m task).machine) :
    (r.advance owner task put).Onward r.machine := by
  cases task with
  | ready program =>
      cases program with
      | done a => exact kept _ _
      | perform op next =>
          by_cases native : ∃ call, op = .eval (.native call)
          · obtain ⟨call, rfl⟩ := native
            exact fun reply => kept _ _
          · rw [advance_perform (not_exists.mp native)]
            exact (r.machine.onward_perform owner op next).trans (kept _ _)
  | waiting ticket deadline next => exact .refl _
  | blocked lock next => exact .refl _
  | finished a => exact .refl _

theorem onward_routeNext {event : NativeEvent} {rest : List NativeEvent}
    (inbox : r.machine.inbox = event :: rest) : (r.routeNext event rest).Onward r.machine := by
  cases routed : r.routeNext event rest with
  | internal r' => exact (Machine.Happens.routed inbox routed).onward
  | call call next =>
      obtain ⟨resumed, m', -, same⟩ := Machine.exists_routed inbox
      rw [routed] at same
      cases resumed with
      | true =>
          obtain ⟨rfl, -⟩ := Step.call.inj same
          exact fun reply => (Machine.Happens.resumed inbox routed reply).onward
      | false => cases same
  | rest => trivial

theorem onward_expireFirst : (r.expireFirst).Onward r.machine := by
  have request (t : Nat) : r.machine.Onward
      (putRequest { r.machine with now := t } r.request.expire r).machine :=
    .aside rfl rfl rfl
  have dispatcher (t : Nat) : r.machine.Onward
      (putDispatcher { r.machine with now := t } r.machine.dispatcher.expire r).machine :=
    .aside rfl rfl rfl
  unfold expireFirst
  dsimp only
  split
  · split
    · exact request _
    · exact dispatcher _
  · exact request _
  · exact dispatcher _
  · trivial

theorem onward_resumeDispatcher? (resumed : r.resumeDispatcher? handle = some r') :
    r.machine.Onward r'.machine := by
  unfold resumeDispatcher? at resumed
  split at resumed
  case h_1 m task woken =>
    cases resumed
    have moved : r.machine.Onward m := Machine.onward_wake? woken
    exact moved.trans (.aside rfl rfl rfl)
  case h_2 =>
    split at resumed
    case h_1 f event rest idle queue =>
      cases resumed
      have begun : r.machine.Onward { r.machine with queue := rest } :=
        (Machine.Happens.handled queue).onward
      exact begun.trans (.aside rfl rfl rfl)
    case h_2 => cases resumed

theorem onward_resume? {owner : TaskId} (resumed : r.resume? handle owner = some r') :
    r.machine.Onward r'.machine := by
  cases owner with
  | request =>
      obtain ⟨⟨m, task⟩, woken, rfl⟩ := Option.map_eq_some_iff.mp resumed
      exact Machine.onward_wake? woken
  | dispatcher => exact onward_resumeDispatcher? resumed

theorem onward_step (handle : Option (NativeEvent → Job σ ε Unit)) (first : TaskId)
    (r : Run σ ε α) : (r.step handle first).Onward r.machine := by
  unfold step
  split
  · exact onward_advance fun m _ => .refl m
  · exact onward_advance fun m _ => .aside rfl rfl rfl
  · unfold choose
    split
    case h_1 event rest inbox => exact onward_routeNext inbox
    case h_2 =>
      split
      case h_1 resumed => exact onward_resume? resumed
      case h_2 =>
        split
        case h_1 resumed => exact onward_resume? resumed
        case h_2 => exact onward_expireFirst

theorem onward_passTurn : r.machine.Onward (r.passTurn handle).machine := by
  unfold passTurn
  split
  case h_1 owner _ =>
    cases resumed : r.resume? handle owner.other with
    | none => exact .refl _
    | some r' => exact onward_resume? resumed
  case h_2 => exact .refl _

/-- However long a machine works, whatever it works on and whoever answers its calls. -/
theorem onward_toRest (backend : Backend τ) (handle : Option (NativeEvent → Job σ ε Unit))
    (fuel : Nat) (r : Run σ ε α) (t : τ) :
    r.machine.Onward (r.toRest backend handle fuel t).1.machine := by
  induction fuel generalizing r t with
  | zero => exact .refl _
  | succ fuel inductionHypothesis =>
      have stepped := onward_step handle backend.first r
      rw [toRest]
      cases here : r.step handle backend.first with
      | internal r' =>
          rw [here] at stepped
          exact stepped.trans (inductionHypothesis r' t)
      | call call next =>
          rw [here] at stepped
          refine .trans ?_ (inductionHypothesis _ _)
          have replied := stepped (backend.answer call t).1
          have raised (m : Machine σ ε) (events : List NativeEvent) : m.Onward (m.raise events) :=
            (Machine.Happens.raised events).onward
          dsimp only
          split
          · exact (replied.trans onward_passTurn).trans (raised _ _)
          · exact replied.trans (raised _ _)
      | rest => exact .refl _

end Run

namespace Machine

/-- The requests and the notifications of a session follow one another, on the same machine. -/
theorem onward_work (backend : Backend τ) (handle : Option (NativeEvent → Job σ ε Unit))
    (fuel : Nat) (request : Task σ ε α) (m : Machine σ ε) (t : τ) :
    m.Onward (m.work backend handle fuel request t).2.1 :=
  Run.onward_toRest backend handle fuel ⟨m, request, none⟩ t

theorem onward_request (backend : Backend τ) (handle : Option (NativeEvent → Job σ ε Unit))
    (fuel : Nat) (program : Job σ ε α) (m : Machine σ ε) (t : τ) :
    m.Onward (m.request backend handle fuel program t).2.1 :=
  (onward_work backend handle fuel (.ready program) m t).trans (.aside rfl rfl rfl)

theorem onward_notify (backend : Backend τ) (handle : Option (NativeEvent → Job σ ε Unit))
    (fuel : Nat) (events : List NativeEvent) (m : Machine σ ε) (t : τ) :
    m.Onward (m.notify backend handle fuel events t).1 :=
  (Happens.raised events).onward.trans
    (onward_request backend handle fuel (.done ()) (m.raise events) t)

end Machine

end ManagedDebugger
