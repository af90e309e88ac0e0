import ManagedDebugger.Proofs.Session.FirstRead
import ManagedDebugger.Proofs.Session.Routing
import Mathlib.Data.Prod.Lex
import Mathlib.Order.WellFounded

/-!
# A machine comes to rest

A task is a program, and comes to its end whatever it is replied. The dispatcher begins with a new
one for each notification that it is to handle, so a machine can go on forever only if its target
raises such notifications forever. If it does not, the machine comes to rest: nothing is left to be
routed, and each task is over or waits for something that does not come by itself.
-/

namespace ManagedDebugger

variable {σ ε α β τ : Type}

/-- For the dispatcher, unless it is the end of an evaluation. -/
def NativeEvent.isWork (event : NativeEvent) : Bool := event.ended?.isNone

/-- A target that raises notifications for the dispatcher uses something up for each of them. Ends of
evaluations may come at any time. -/
def Backend.Subsides (backend : Backend τ) (load : τ → Nat) : Prop :=
  ∀ call t, let (_, events, t') := backend.answer call t
    load t' + events.countP NativeEvent.isWork ≤ load t

/-! ## Tasks -/

/-- What becomes of a task that goes on. -/
inductive Task.Follows : Task σ ε α → Task σ ε α → Prop where
  | finished (a : α) : Follows (.finished a) (.ready (.done a))
  | replied (op : WorkOp σ ε) (next : op.Reply → Job σ ε α) (reply : op.Reply) :
      Follows (.ready (next reply)) (.ready (.perform op next))
  | waiting (ticket : Ticket) (limit deadline : Option Nat)
      (next : Option Delivery → Job σ ε α) :
      Follows (.waiting ticket deadline next) (.ready (.perform (.eval (.wait ticket limit)) next))
  | told (ticket : Ticket) (deadline : Option Nat) (next : Option Delivery → Job σ ε α)
      (delivery : Option Delivery) :
      Follows (.ready (next delivery)) (.waiting ticket deadline next)
  | blocked (lock : Lock) (next : Unit → Job σ ε α) :
      Follows (.blocked lock next) (.ready (.perform (.acquire lock) next))
  | handed (lock : Lock) (next : Unit → Job σ ε α) :
      Follows (.ready (next ())) (.blocked lock next)

theorem Task.acc_finished (a : α) : Acc Follows (.finished a : Task σ ε α) := by
  constructor
  intro task follows
  cases follows

theorem Task.not_follows_finished {task : Task σ ε α} (a : α) :
    ¬ Relation.TransGen Follows task (.finished a) := by
  intro follows
  obtain ⟨_, -, last⟩ := Relation.TransGen.tail'_iff.mp follows
  cases last

theorem Task.acc_waiting {ticket : Ticket} {deadline : Option Nat}
    {next : Option Delivery → Job σ ε α} (later : ∀ d, Acc Follows (Task.ready (next d))) :
    Acc Follows (Task.waiting ticket deadline next) := by
  constructor
  intro task follows
  cases follows
  exact later _

theorem Task.acc_blocked {lock : Lock} {next : Unit → Job σ ε α}
    (later : Acc Follows (Task.ready (next ()))) : Acc Follows (Task.blocked lock next) := by
  constructor
  intro task follows
  cases follows
  exact later

theorem Task.acc_ready (p : Job σ ε α) : Acc Follows (Task.ready p) := by
  induction p with
  | done a =>
      constructor
      intro task follows
      cases follows
      exact acc_finished a
  | perform op next inductionHypothesis =>
      constructor
      intro task follows
      cases follows with
      | replied => exact inductionHypothesis _
      | waiting ticket limit deadline next => exact acc_waiting inductionHypothesis
      | blocked lock next => exact acc_blocked (inductionHypothesis ())

/-- Tasks do not go on forever. -/
theorem Task.wellFounded_follows :
    WellFounded (Follows : Task σ ε α → Task σ ε α → Prop) := by
  constructor
  intro task
  cases task with
  | ready p => exact acc_ready p
  | waiting ticket deadline next => exact acc_waiting fun d => acc_ready (next d)
  | blocked lock next => exact acc_blocked (acc_ready (next ()))
  | finished a => exact acc_finished a

def Task.isReady : Task σ ε α → Bool
  | ready _ => true
  | waiting .. | blocked .. | finished _ => false

namespace Machine

variable {m m' : Machine σ ε} {owner : TaskId}

/-- Nothing is raised or begun. -/
structure Stays (m m' : Machine σ ε) : Prop where
  inbox : m'.inbox = m.inbox
  queue : m'.queue = m.queue
  dispatcher : m'.dispatcher = m.dispatcher

theorem stays_perform (m : Machine σ ε) (owner : TaskId) (op : WorkOp σ ε)
    (next : op.Reply → Job σ ε α) : m.Stays (m.perform owner op next).1 := by
  cases op with
  | eval op =>
      cases op with
      | wait ticket limit =>
          unfold perform
          dsimp only
          split
          · exact ⟨rfl, rfl, rfl⟩
          · exact ⟨rfl, rfl, rfl⟩
          · exact ⟨rfl, rfl, rfl⟩
      | native call => exact ⟨rfl, rfl, rfl⟩
      | register eval thread => exact ⟨rfl, rfl, rfl⟩
      | cancel eval => exact ⟨rfl, rfl, rfl⟩
  | update f => exact ⟨rfl, rfl, rfl⟩
  | emit event => exact ⟨rfl, rfl, rfl⟩
  | acquire lock => exact ⟨rfl, rfl, rfl⟩
  | release lock => exact ⟨rfl, rfl, rfl⟩

theorem follows_perform (m : Machine σ ε) (owner : TaskId) (op : WorkOp σ ε)
    (next : op.Reply → Job σ ε α) (other : ∀ call, op ≠ .eval (.native call)) :
    (m.perform owner op next).2.Follows (.ready (.perform op next)) := by
  cases op with
  | eval op =>
      cases op with
      | native call => exact absurd rfl (other call)
      | wait ticket limit =>
          unfold perform
          dsimp only
          cases m.waiters.take? ticket with
          | some found => exact .replied _ next _
          | none =>
              cases limit with
              | none => exact .waiting ticket none _ next
              | some n =>
                  cases n with
                  | zero => exact .replied _ next none
                  | succ n => exact .waiting ticket (some (n + 1)) _ next
      | register eval thread => exact .replied _ next _
      | cancel eval => exact .replied _ next ()
  | update f => exact .replied _ next m.state
  | emit event => exact .replied _ next ()
  | acquire lock =>
      unfold perform
      dsimp only
      split
      · exact .replied _ next ()
      · exact .blocked lock next
  | release lock => exact .replied _ next ()

theorem stays_wake? {task task' : Task σ ε α} (woken : m.wake? owner task = some (m', task')) :
    m.Stays m' := by
  cases task with
  | ready p =>
      cases woken
      exact ⟨rfl, rfl, rfl⟩
  | waiting ticket deadline next =>
      obtain ⟨_, -, same⟩ := Option.map_eq_some_iff.mp woken
      cases same
      exact ⟨rfl, rfl, rfl⟩
  | blocked lock next =>
      obtain ⟨-, same⟩ := Option.ite_none_right_eq_some.mp woken
      cases same
      exact ⟨rfl, rfl, rfl⟩
  | finished a => cases woken

/-- Who can go on anyway does not change anything. -/
theorem wake?_of_same {task : Task σ ε α} (woken : m.wake? owner task = some (m', task)) :
    m' = m := by
  cases task with
  | ready p =>
      cases woken
      rfl
  | waiting ticket deadline next =>
      obtain ⟨_, -, same⟩ := Option.map_eq_some_iff.mp woken
      cases same
  | blocked lock next =>
      obtain ⟨-, same⟩ := Option.ite_none_right_eq_some.mp woken
      cases same
  | finished a => cases woken

theorem follows_wake? {task task' : Task σ ε α} (woken : m.wake? owner task = some (m', task')) :
    task'.isReady = true ∧ (task' = task ∨ task'.Follows task) := by
  cases task with
  | ready p =>
      cases woken
      exact ⟨rfl, .inl rfl⟩
  | waiting ticket deadline next =>
      obtain ⟨_, -, same⟩ := Option.map_eq_some_iff.mp woken
      cases same
      exact ⟨rfl, .inr (.told ticket deadline next _)⟩
  | blocked lock next =>
      obtain ⟨-, same⟩ := Option.ite_none_right_eq_some.mp woken
      cases same
      exact ⟨rfl, .inr (.handed lock next)⟩
  | finished a => cases woken

end Machine

theorem Task.follows_expire {task : Task σ ε α} {t : Nat} (limited : task.deadline? = some t) :
    task.expire.Follows task := by
  cases task with
  | waiting ticket deadline next => exact .told ticket deadline next none
  | ready p => cases limited
  | blocked lock next => cases limited
  | finished a => cases limited

/-! ## Runs -/

/-- The notifications that the dispatcher has not begun with. -/
def Machine.backlog (m : Machine σ ε) : Nat := m.inbox.countP NativeEvent.isWork + m.queue.length

theorem Machine.Stays.backlog {m m' : Machine σ ε} (stays : m.Stays m') :
    m'.backlog = m.backlog := by
  rw [Machine.backlog, stays.inbox, stays.queue, Machine.backlog]

theorem Machine.backlog_raise (m : Machine σ ε) (events : List NativeEvent) :
    (m.raise events).backlog = m.backlog + events.countP NativeEvent.isWork := by
  unfold backlog raise
  simp only [List.countP_append]
  omega

theorem Backend.Subsides.backlog_raise {backend : Backend τ} {load : τ → Nat}
    (subsides : backend.Subsides load) (call : NativeCall) (t : τ) (m : Machine σ ε) :
    load (backend.answer call t).2.2 + (m.raise (backend.answer call t).2.1).backlog ≤
      load t + m.backlog := by
  have uses : load (backend.answer call t).2.2 +
      (backend.answer call t).2.1.countP NativeEvent.isWork ≤ load t := subsides call t
  rw [m.backlog_raise]
  omega

namespace Machine.Routed

variable {m m' : Machine σ ε} {event : NativeEvent}

/-- The target goes on after a stop that is not for the dispatcher. -/
theorem backlog_lt (routed : Routed m event true m') : m'.backlog < m.backlog := by
  obtain ⟨thread, stopped, -⟩ := routed.resumed.mp rfl
  have work : event.isWork = true := by
    cases event <;> first | rfl | cases stopped
  have queue : m'.queue = m.queue := routed.queue.trans (List.append_nil _)
  unfold backlog
  rw [routed.inbox, queue, List.countP_cons_of_pos work]
  omega

theorem backlog (routed : Routed m event false m') : m'.backlog = m.backlog := by
  unfold Machine.backlog
  rw [routed.inbox, routed.queue]
  cases ended : event.ended? with
  | none =>
      have work : event.isWork = true := by simp [NativeEvent.isWork, ended]
      rw [List.countP_cons_of_pos work]
      simp [Passage.forwarded?, ended]
      omega
  | some outcome =>
      have idle : ¬ event.isWork = true := by simp [NativeEvent.isWork, ended]
      rw [List.countP_cons_of_neg idle]
      simp [Passage.forwarded?, ended]

end Machine.Routed

namespace Run

variable {handle : Option (NativeEvent → Job σ ε Unit)} {r r' r'' : Run σ ε α}

/-- Fewer notifications are left to begin with, or else a task has gone on. -/
inductive Advances (r r' : Run σ ε α) : Prop where
  | begun : r'.machine.backlog < r.machine.backlog → Advances r r'
  | dispatcher : r'.machine.backlog = r.machine.backlog →
      Relation.TransGen Task.Follows r'.machine.dispatcher r.machine.dispatcher → Advances r r'
  | request : r'.machine.backlog = r.machine.backlog →
      r'.machine.dispatcher = r.machine.dispatcher →
      Relation.TransGen Task.Follows r'.request r.request → Advances r r'

theorem Advances.trans (first : r.Advances r') (second : r'.Advances r'') : r.Advances r'' := by
  cases first with
  | begun fewer =>
      cases second with
      | begun fewer' => exact .begun (fewer'.trans fewer)
      | dispatcher same' _ => exact .begun (same'.trans_lt fewer)
      | request same' _ _ => exact .begun (same'.trans_lt fewer)
  | dispatcher same follows =>
      cases second with
      | begun fewer' => exact .begun (fewer'.trans_eq same)
      | dispatcher same' follows' => exact .dispatcher (same'.trans same) (follows'.trans follows)
      | request same' kept _ => exact .dispatcher (same'.trans same) (kept ▸ follows)
  | request same kept follows =>
      cases second with
      | begun fewer' => exact .begun (fewer'.trans_eq same)
      | dispatcher same' follows' => exact .dispatcher (same'.trans same) (kept ▸ follows')
      | request same' kept' follows' =>
          exact .request (same'.trans same) (kept'.trans kept) (follows'.trans follows)

/-- The turn of a task that can use it comes first, then that of nobody. -/
def phase (r : Run σ ε α) : Nat :=
  match r.turn with
  | none => 1
  | some .request => if r.request.isReady then 0 else 2
  | some .dispatcher => if r.machine.dispatcher.isReady then 0 else 2

/-- Nothing but the routing of notifications and the turn gets on. -/
structure Settles (r r' : Run σ ε α) : Prop where
  backlog : r'.machine.backlog = r.machine.backlog
  dispatcher : r'.machine.dispatcher = r.machine.dispatcher
  request : r'.request = r.request
  lower : r'.machine.inbox.length < r.machine.inbox.length ∨
    r'.machine.inbox.length = r.machine.inbox.length ∧ r'.phase < r.phase

end Run

/-- A step gets on, whatever the target replies. -/
def Step.GetsOn (r : Run σ ε α) : Step σ ε α → Prop
  | .internal r' => r.Advances r' ∨ r.Settles r'
  | .call _ next => ∀ reply, r.Advances (next reply)
  | .rest => True

namespace Run

variable {handle : Option (NativeEvent → Job σ ε Unit)} {r r' : Run σ ε α}

theorem getsOn_advance {owner : TaskId} {task : Task σ ε β}
    {put : Machine σ ε → Task σ ε β → Run σ ε α}
    (gone : ∀ m task' turn, r.machine.Stays m → task'.Follows task →
      r.Advances { put m task' with turn := turn })
    (idle : task.isReady = false → r.Settles { r with turn := none }) :
    (r.advance owner task put).GetsOn r := by
  cases task with
  | ready program =>
      cases program with
      | done a => exact .inl (gone _ _ none ⟨rfl, rfl, rfl⟩ (.finished a))
      | perform op next =>
          by_cases native : ∃ call, op = .eval (.native call)
          · obtain ⟨call, rfl⟩ := native
            exact fun reply => gone _ _ (some owner) ⟨rfl, rfl, rfl⟩
              (.replied (.eval (.native call)) next reply)
          · have other : ∀ call, op ≠ .eval (.native call) := not_exists.mp native
            rw [advance_perform other]
            apply Or.inl
            apply gone
            · exact r.machine.stays_perform owner op next
            · exact r.machine.follows_perform owner op next other
  | waiting ticket deadline next => exact .inr (idle rfl)
  | blocked lock next => exact .inr (idle rfl)
  | finished a => exact .inr (idle rfl)

/-- Routing lets a notification go, or hands it on. -/
theorem getsOn_routeNext {event : NativeEvent} {rest : List NativeEvent}
    (inbox : r.machine.inbox = event :: rest) : (r.routeNext event rest).GetsOn r := by
  obtain ⟨resumed, m', routed, same⟩ := Machine.exists_routed inbox
  rw [same]
  cases resumed with
  | true => exact fun reply => .begun routed.backlog_lt
  | false =>
      refine .inr ⟨routed.backlog, ?_, rfl, .inl ?_⟩
      · rw [routed.others]
      · rw [routed.inbox]
        exact Nat.lt_succ_self _

theorem advances_resumeRequest? (resumed : r.resumeRequest? = some r') :
    r.Advances r' ∨ r' = { r with turn := some .request } ∧ r'.phase = 0 := by
  obtain ⟨⟨m, task⟩, woken, rfl⟩ := Option.map_eq_some_iff.mp resumed
  obtain ⟨ready, same | follows⟩ := Machine.follows_wake? woken
  · subst same
    obtain rfl := Machine.wake?_of_same woken
    exact .inr ⟨rfl, if_pos ready⟩
  · have stays := Machine.stays_wake? woken
    exact .inl (.request stays.backlog stays.dispatcher (.single follows))

theorem advances_resumeDispatcher? (resumed : r.resumeDispatcher? handle = some r') :
    r.Advances r' ∨ r' = { r with turn := some .dispatcher } ∧ r'.phase = 0 := by
  unfold resumeDispatcher? at resumed
  split at resumed
  case h_1 m task woken =>
    cases resumed
    obtain ⟨ready, same | follows⟩ := Machine.follows_wake? woken
    · subst same
      obtain rfl := Machine.wake?_of_same woken
      exact .inr ⟨rfl, if_pos ready⟩
    · have stays := Machine.stays_wake? woken
      exact .inl (.dispatcher stays.backlog (.single follows))
  case h_2 =>
    split at resumed
    case h_1 f event rest idle queue =>
      cases resumed
      apply Or.inl
      apply Advances.begun
      unfold Machine.backlog putDispatcher
      dsimp only
      rw [queue, List.length_cons]
      omega
    case h_2 => cases resumed

/-- A task that can go on has its turn, and has gone on if it had to wait before. -/
theorem advances_resume? {owner : TaskId} (resumed : r.resume? handle owner = some r') :
    r.Advances r' ∨ r' = { r with turn := some owner } ∧ r'.phase = 0 := by
  cases owner with
  | request => exact advances_resumeRequest? resumed
  | dispatcher => exact advances_resumeDispatcher? resumed

theorem getsOn_expireFirst : r.expireFirst.GetsOn r := by
  have request {t : Nat} (limited : r.request.deadline? = some t) (now : Nat) :
      r.Advances (putRequest { r.machine with now } r.request.expire r) :=
    .request rfl rfl (.single (Task.follows_expire limited))
  have dispatcher {t : Nat} (limited : r.machine.dispatcher.deadline? = some t) (now : Nat) :
      r.Advances (putDispatcher { r.machine with now } r.machine.dispatcher.expire r) :=
    .dispatcher rfl (.single (Task.follows_expire limited))
  unfold expireFirst
  dsimp only
  split
  case h_1 first second =>
    split
    · exact .inl (request first _)
    · exact .inl (dispatcher second _)
  case h_2 limited _ => exact .inl (request limited _)
  case h_3 limited => exact .inl (dispatcher limited _)
  case h_4 => trivial

theorem getsOn_choose (turn : r.turn = none) (first : TaskId) :
    (r.choose handle first).GetsOn r := by
  have resumes {owner : TaskId} {r' : Run σ ε α} (resumed : r.resume? handle owner = some r') :
      r.Advances r' ∨ r.Settles r' := by
    refine (advances_resume? resumed).imp_right fun turned => ?_
    obtain ⟨rfl, phase⟩ := turned
    refine ⟨rfl, rfl, rfl, .inr ⟨rfl, ?_⟩⟩
    rw [phase, Run.phase, turn]
    exact Nat.one_pos
  unfold choose
  split
  case h_1 event rest inbox => exact getsOn_routeNext inbox
  case h_2 =>
    split
    case h_1 resumed => exact resumes resumed
    case h_2 =>
      split
      case h_1 resumed => exact resumes resumed
      case h_2 => exact getsOn_expireFirst

/-- Every step gets on. -/
theorem getsOn_step (handle : Option (NativeEvent → Job σ ε Unit)) (first : TaskId)
    (r : Run σ ε α) : (r.step handle first).GetsOn r := by
  have idle {owner : TaskId} (turn : r.turn = some owner) (phase : r.phase = 2) :
      r.Settles { r with turn := none } := by
    refine ⟨rfl, rfl, rfl, .inr ⟨rfl, ?_⟩⟩
    rw [phase]
    exact Nat.one_lt_two
  unfold step
  split
  case h_1 turn =>
    apply getsOn_advance
    · intro m task' _ stays follows
      exact .request stays.backlog stays.dispatcher (.single follows)
    · intro waits
      exact idle turn (by simp [phase, turn, waits])
  case h_2 turn =>
    apply getsOn_advance
    · intro m task' _ stays follows
      exact .dispatcher stays.backlog (.single follows)
    · intro waits
      exact idle turn (by simp [phase, turn, waits])
  case h_3 turn => exact getsOn_choose turn first

theorem Advances.passTurn (advances : r.Advances r') : r.Advances (r'.passTurn handle) := by
  unfold Run.passTurn
  split
  case h_1 owner _ =>
    cases resumed : r'.resume? handle owner.other with
    | none => exact advances
    | some r'' =>
        cases advances_resume? resumed with
        | inl advances' => exact advances.trans advances'
        | inr turned =>
            obtain ⟨rfl, -⟩ := turned
            cases advances with
            | begun fewer => exact .begun fewer
            | dispatcher same follows => exact .dispatcher same follows
            | request same kept follows => exact .request same kept follows
  case h_2 => exact advances

/-! ## Coming to rest -/

/-- What lies ahead of a run whose target may raise a number of notifications yet. -/
def ahead (load : Nat) (r : Run σ ε α) : Nat × Task σ ε Unit × Task σ ε α × Nat × Nat :=
  (load + r.machine.backlog, r.machine.dispatcher, r.request, r.machine.inbox.length, r.phase)

/-- Less lies ahead: what comes first in a run counts most. -/
abbrev Less (σ ε α : Type) :
    Nat × Task σ ε Unit × Task σ ε α × Nat × Nat → Nat × Task σ ε Unit × Task σ ε α × Nat × Nat →
      Prop :=
  Prod.Lex (· < ·) (Prod.Lex (Relation.TransGen Task.Follows)
    (Prod.Lex (Relation.TransGen Task.Follows) (Prod.Lex (· < ·) (· < ·))))

theorem wellFounded_less : WellFounded (Less σ ε α) := by
  apply WellFounded.prod_lex wellFounded_lt
  apply WellFounded.prod_lex Task.wellFounded_follows.transGen
  apply WellFounded.prod_lex Task.wellFounded_follows.transGen
  exact WellFounded.prod_lex wellFounded_lt wellFounded_lt

theorem Settles.less (settles : r.Settles r') (load : Nat) :
    Less σ ε α (r'.ahead load) (r.ahead load) := by
  unfold ahead
  rw [settles.backlog, settles.dispatcher, settles.request]
  apply Prod.Lex.right
  apply Prod.Lex.right
  apply Prod.Lex.right
  rcases settles.lower with shorter | ⟨same, phase⟩
  · exact .left _ _ shorter
  · rw [same]
    exact .right _ phase

/-- Less lies ahead of a run that advances, also if notifications are raised that use something
up. -/
theorem Advances.less (advances : r.Advances r') {load load' : Nat} {m : Machine σ ε}
    (dispatcher : m.dispatcher = r'.machine.dispatcher)
    (subsides : load' + m.backlog ≤ load + r'.machine.backlog) :
    Less σ ε α (ahead load' { r' with machine := m }) (r.ahead load) := by
  have fewer : load' + m.backlog ≤ load + r.machine.backlog := by
    cases advances <;> omega
  unfold ahead
  rcases fewer.lt_or_eq with fewer | same
  · exact .left _ _ fewer
  · rw [same, dispatcher]
    cases advances with
    | begun fewer => omega
    | dispatcher _ follows => exact .right _ (.left _ _ follows)
    | request _ kept follows =>
        rw [kept]
        exact .right _ (.right _ (.left _ _ follows))

/-- With enough fuel, a run comes to where nothing more can happen. -/
def ComesToRest (backend : Backend τ) (handle : Option (NativeEvent → Job σ ε Unit))
    (r : Run σ ε α) (t : τ) : Prop :=
  ∃ enough r' t', r'.step handle backend.first = .rest ∧
    ∀ fuel ≥ enough, r.toRest backend handle fuel t = (r', t')

variable {backend : Backend τ} {t t' : τ}

theorem ComesToRest.head (leads : ∀ fuel, r.toRest backend handle (fuel + 1) t =
      r'.toRest backend handle fuel t') (comes : r'.ComesToRest backend handle t') :
    r.ComesToRest backend handle t := by
  obtain ⟨enough, r₁, t₁, rests, same⟩ := comes
  refine ⟨enough + 1, r₁, t₁, rests, fun fuel more => ?_⟩
  obtain ⟨fuel, rfl⟩ := Nat.exists_eq_add_of_le' (Nat.one_le_of_lt more)
  rw [leads]
  exact same fuel (Nat.le_of_succ_le_succ more)

/-- A machine comes to rest if its target does. -/
theorem comesToRest {load : τ → Nat} (subsides : backend.Subsides load) (r : Run σ ε α) (t : τ) :
    r.ComesToRest backend handle t := by
  have descends := InvImage.wf (fun x : Run σ ε α × τ => x.1.ahead (load x.2)) wellFounded_less
  revert r t
  suffices ∀ x : Run σ ε α × τ, x.1.ComesToRest backend handle x.2 from fun r t => this (r, t)
  intro x
  induction x using descends.induction with
  | _ x inductionHypothesis =>
      obtain ⟨r, t⟩ := x
      have getsOn := getsOn_step handle backend.first r
      cases stepped : r.step handle backend.first with
      | internal r' =>
          rw [stepped] at getsOn
          refine .head (fun fuel => ?_) (inductionHypothesis (r', t) ?_)
          · rw [toRest, stepped]
          · cases getsOn with
            | inl advances => exact advances.less rfl le_rfl
            | inr settles => exact settles.less (load t)
      | call call next =>
          rw [stepped] at getsOn
          let r₁ := next (backend.answer call t).1
          let r₂ := if backend.isRemote then r₁.passTurn handle else r₁
          let r₃ := { r₂ with machine := r₂.machine.raise (backend.answer call t).2.1 }
          have advances : r.Advances r₂ := by
            unfold r₂
            split
            · exact (getsOn _).passTurn
            · exact getsOn _
          have less : Less σ ε α (r₃.ahead (load (backend.answer call t).2.2)) (r.ahead (load t)) :=
            advances.less rfl (subsides.backlog_raise call t r₂.machine)
          refine .head (fun fuel => ?_) (inductionHypothesis (r₃, _) less)
          rw [toRest, stepped]
      | rest =>
          refine ⟨0, r, t, stepped, fun fuel _ => ?_⟩
          cases fuel with
          | zero => rfl
          | succ fuel => rw [toRest, stepped]

end Run

/-! ## What every step keeps -/

/-- Wherever a step leads, whatever the target replies. -/
def Step.LeadsTo (P : Run σ ε α → Prop) : Step σ ε α → Prop
  | .internal r => P r
  | .call _ next => ∀ reply, P (next reply)
  | .rest => True

namespace Run

variable {handle : Option (NativeEvent → Job σ ε Unit)} {r r' : Run σ ε α} {backend : Backend τ}

/-- However long a machine works, it keeps what is kept by a step, by the turn that is passed on when
the target is called, and by the notifications that this raises. -/
theorem keeps_toRest {P : Run σ ε α → Prop}
    (step : ∀ r, P r → (r.step handle backend.first).LeadsTo P)
    (passTurn : ∀ r, P r → P (r.passTurn handle))
    (raise : ∀ r call t, P r → P { r with machine := r.machine.raise (backend.answer call t).2.1 })
    (holds : P r) (fuel : Nat) (t : τ) : P (r.toRest backend handle fuel t).1 := by
  induction fuel generalizing r t with
  | zero => exact holds
  | succ fuel inductionHypothesis =>
      have leads := step r holds
      rw [toRest]
      cases stepped : r.step handle backend.first with
      | internal r' =>
          rw [stepped] at leads
          exact inductionHypothesis leads t
      | call call next =>
          rw [stepped] at leads
          have replied := leads (backend.answer call t).1
          apply inductionHypothesis
          apply raise
          split
          · exact passTurn _ replied
          · exact replied
      | rest => exact holds

/-! ## A dispatcher with nothing to do -/

/-- The dispatcher has come to its end, and no notification is left for it. -/
structure Undisturbed (r : Run σ ε α) : Prop where
  dispatcher : r.machine.dispatcher = .finished ()
  backlog : r.machine.backlog = 0

namespace Undisturbed

theorem advances (undisturbed : r.Undisturbed) (advances : r.Advances r') : r'.Undisturbed := by
  cases advances with
  | begun fewer => exact absurd fewer (undisturbed.backlog ▸ Nat.not_lt_zero _)
  | dispatcher same follows =>
      rw [undisturbed.dispatcher] at follows
      exact absurd follows (Task.not_follows_finished ())
  | request same kept _ =>
      exact ⟨kept.trans undisturbed.dispatcher, same.trans undisturbed.backlog⟩

theorem settles (undisturbed : r.Undisturbed) (settles : r.Settles r') : r'.Undisturbed :=
  ⟨settles.dispatcher.trans undisturbed.dispatcher, settles.backlog.trans undisturbed.backlog⟩

theorem raise (undisturbed : r.Undisturbed) (silent : backend.Subsides fun _ => 0)
    (call : NativeCall) (t : τ) :
    Undisturbed { r with machine := r.machine.raise (backend.answer call t).2.1 } where
  dispatcher := undisturbed.dispatcher
  backlog := by
    have fewer := silent.backlog_raise call t r.machine
    rw [undisturbed.backlog] at fewer
    simpa using fewer

theorem step (undisturbed : r.Undisturbed) (first : TaskId) :
    (r.step handle first).LeadsTo Undisturbed := by
  have getsOn := getsOn_step handle first r
  cases stepped : r.step handle first with
  | internal r' =>
      rw [stepped] at getsOn
      cases getsOn with
      | inl advances => exact undisturbed.advances advances
      | inr settles => exact undisturbed.settles settles
  | call call next =>
      rw [stepped] at getsOn
      exact fun reply => undisturbed.advances (getsOn reply)
  | rest => trivial

theorem passTurn (undisturbed : r.Undisturbed) : (r.passTurn handle).Undisturbed := by
  unfold Run.passTurn
  split
  case h_1 owner _ =>
    cases resumed : r.resume? handle owner.other with
    | none => exact undisturbed
    | some r' =>
        cases advances_resume? resumed with
        | inl advances => exact undisturbed.advances advances
        | inr turned =>
            obtain ⟨rfl, -⟩ := turned
            exact ⟨undisturbed.dispatcher, undisturbed.backlog⟩
  case h_2 => exact undisturbed

/-- A target that raises no notification leaves the dispatcher alone. -/
theorem toRest (silent : backend.Subsides fun _ => 0) (undisturbed : r.Undisturbed) (fuel : Nat)
    (t : τ) : (r.toRest backend handle fuel t).1.Undisturbed := by
  refine keeps_toRest ?_ ?_ ?_ undisturbed fuel t
  · exact fun r undisturbed => undisturbed.step backend.first
  · exact fun r undisturbed => undisturbed.passTurn
  · exact fun r call t undisturbed => undisturbed.raise silent call t

end Undisturbed

/-! ## Where nothing more can happen -/

/-- A task is over, or waits for something that does not come by itself. -/
structure Rests (r : Run σ ε α) (owner : TaskId) (task : Task σ ε β) : Prop where
  waits : r.machine.wake? owner task = none
  unlimited : task.deadline? = none

theorem advance_ne_rest {owner : TaskId} {task : Task σ ε β}
    {put : Machine σ ε → Task σ ε β → Run σ ε α} : r.advance owner task put ≠ .rest := by
  cases task with
  | ready program =>
      cases program with
      | done a => exact nofun
      | perform op next =>
          by_cases native : ∃ call, op = .eval (.native call)
          · obtain ⟨call, rfl⟩ := native
            exact nofun
          · rw [advance_perform (not_exists.mp native)]
            exact nofun
  | waiting ticket deadline next => exact nofun
  | blocked lock next => exact nofun
  | finished a => exact nofun

theorem routeNext_ne_rest {event : NativeEvent} {rest : List NativeEvent}
    (inbox : r.machine.inbox = event :: rest) : r.routeNext event rest ≠ .rest := by
  obtain ⟨resumed, m', -, same⟩ := Machine.exists_routed inbox
  rw [same]
  cases resumed with
  | true => exact nofun
  | false => exact nofun

theorem wake?_of_resumeDispatcher? (waits : r.resumeDispatcher? handle = none) :
    r.machine.wake? .dispatcher r.machine.dispatcher = none := by
  unfold resumeDispatcher? at waits
  cases woken : r.machine.wake? .dispatcher r.machine.dispatcher with
  | none => rfl
  | some found =>
      rw [woken] at waits
      cases waits

/-- Where nothing more can happen, both tasks rest. -/
theorem rests_of_step {first : TaskId} (rests : r.step handle first = .rest) :
    r.Rests .request r.request ∧ r.Rests .dispatcher r.machine.dispatcher := by
  unfold step at rests
  split at rests
  case h_1 => exact absurd rests advance_ne_rest
  case h_2 => exact absurd rests advance_ne_rest
  case h_3 =>
    unfold choose at rests
    split at rests
    case h_1 event rest inbox => exact absurd rests (routeNext_ne_rest inbox)
    case h_2 =>
      split at rests
      case h_1 => cases rests
      case h_2 waits =>
        split at rests
        case h_1 => cases rests
        case h_2 waits' =>
          have limits : r.request.deadline? = none ∧ r.machine.dispatcher.deadline? = none := by
            unfold expireFirst at rests
            dsimp only at rests
            split at rests
            case h_1 => split at rests <;> cases rests
            case h_2 => cases rests
            case h_3 => cases rests
            case h_4 request dispatcher => exact ⟨request, dispatcher⟩
          have none (owner : TaskId) : r.resume? handle owner = none := by
            cases first <;> cases owner <;> assumption
          have request := Option.map_eq_none_iff.mp (none .request)
          have dispatcher := wake?_of_resumeDispatcher? (none .dispatcher)
          exact ⟨⟨request, limits.1⟩, ⟨dispatcher, limits.2⟩⟩

end Run

end ManagedDebugger
