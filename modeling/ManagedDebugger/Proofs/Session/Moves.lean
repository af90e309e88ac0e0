import ManagedDebugger.Proofs.Session.Task
import ManagedDebugger.Session.Machine

/-!
# What a machine can come to next

A machine moves one of its two tasks at a time, by at most one operation, or has the dispatcher
begin with the next notification. Nothing else changes the shared state, tells the front end
anything or calls the target, but for the calls that let an evaluation go on after a stop that is
its own. So a task that goes on while the other one rests plays its program, alone.
-/

namespace ManagedDebugger

variable {σ ε α β τ : Type} {possible : Exchange evalEffect → Prop}

/-- What others see of a task: what the front end is told, and what the target is called for. -/
abbrev Trace (ε : Type) := List (ε ⊕ NativeCall)

def Trace.told (seen : Trace ε) : List ε := seen.filterMap Sum.getLeft?

def Trace.called (seen : Trace ε) : List NativeCall := seen.filterMap Sum.getRight?

@[simp]
theorem Trace.told_append (first second : Trace ε) :
    told (first ++ second) = first.told ++ second.told :=
  List.filterMap_append

@[simp]
theorem Trace.called_append (first second : Trace ε) :
    called (first ++ second) = first.called ++ second.called :=
  List.filterMap_append

def WorkOp.seen : WorkOp σ ε → Trace ε
  | .emit event => [.inl event]
  | .eval (.native call) => [.inr call]
  | _ => []

/-- What others see of a transcript. -/
def seenOf (es : List (Exchange (workEffect σ ε))) : Trace ε := es.flatMap fun x => WorkOp.seen x.op

theorem seenOf_append (first second : List (Exchange (workEffect σ ε))) :
    seenOf (first ++ second) = seenOf first ++ seenOf second :=
  List.flatMap_append

/-- Nothing but the calls to the target is restricted. -/
def EvalOp.OnlyCalls (possible : Exchange evalEffect → Prop) : Prop :=
  ∀ (op : EvalOp) (reply : op.Reply), (∀ call, op ≠ .native call) → possible ⟨op, reply⟩

theorem EvalOp.onlyCalls_succeeds : OnlyCalls Succeeds := by
  intro op reply other
  cases op with
  | native call => exact absurd rfl (other call)
  | register eval thread => trivial
  | cancel eval => trivial
  | wait ticket limit => trivial

/-- A task goes on for at most one operation. -/
inductive Task.Moves (possible : Exchange evalEffect → Prop) :
    Task σ ε α → σ → Trace ε → Task σ ε α → σ → Prop where
  | still (task : Task σ ε α) (s : σ) : Moves possible task s [] task s
  | perform {op : WorkOp σ ε} {next : op.Reply → Job σ ε α} {reply : op.Reply} {s s' : σ} :
      Job.alone possible s ⟨op, reply⟩ s' →
      Moves possible (.ready (.perform op next)) s op.seen (.ready (next reply)) s'
  | wait {ticket : Ticket} {limit deadline : Option Nat} {next : Option Delivery → Job σ ε α}
      {s : σ} :
      Moves possible (.ready (.perform (.eval (.wait ticket limit)) next)) s []
        (.waiting ticket deadline next) s
  | waited {ticket : Ticket} {deadline : Option Nat} {next : Option Delivery → Job σ ε α}
      {delivery : Option Delivery} {s : σ} :
      Moves possible (.waiting ticket deadline next) s [] (.ready (next delivery)) s
  | block {lock : Lock} {next : Unit → Job σ ε α} {s : σ} :
      Moves possible (.ready (.perform (.acquire lock) next)) s [] (.blocked lock next) s
  | unblock {lock : Lock} {next : Unit → Job σ ε α} {s : σ} :
      Moves possible (.blocked lock next) s [] (.ready (next ())) s
  | finish {a : α} {s : σ} : Moves possible (.ready (.done a)) s [] (.finished a) s

theorem Task.moves_expire (task : Task σ ε α) (s : σ) :
    Moves possible task s [] task.expire s := by
  cases task with
  | waiting ticket deadline next => exact .waited
  | ready program => exact .still _ s
  | blocked lock next => exact .still _ s
  | finished a => exact .still _ s

theorem Task.Moves.of_finished {a : α} {s s' : σ} {seen : Trace ε} {task : Task σ ε α}
    (moved : Moves possible (.finished a) s seen task s') :
    seen = [] ∧ task = .finished a ∧ s' = s := by
  cases moved
  exact ⟨rfl, rfl, rfl⟩

/-- A task that has nothing left to do. -/
theorem Task.Moves.of_done {a : α} {s s' : σ} {seen : Trace ε} {task task' : Task σ ε α}
    (spent : task = .ready (.done a) ∨ task = .finished a)
    (moved : Moves possible task s seen task' s') :
    seen = [] ∧ (task' = .ready (.done a) ∨ task' = .finished a) ∧ s' = s := by
  cases spent with
  | inl ready =>
      subst ready
      cases moved with
      | still => exact ⟨rfl, .inl rfl, rfl⟩
      | finish => exact ⟨rfl, .inr rfl, rfl⟩
  | inr finished =>
      subst finished
      obtain ⟨silent, same, state⟩ := moved.of_finished
      exact ⟨silent, .inr same, state⟩

namespace Machine

/-- The machine goes on with a task, and leaves the dispatcher to whoever works on it. -/
structure Moves (possible : Exchange evalEffect → Prop) (m : Machine σ ε) (task : Task σ ε α)
    (seen : Trace ε) (m' : Machine σ ε) (task' : Task σ ε α) : Prop where
  task : task.Moves possible m.state seen task' m'.state
  dispatcher : m'.dispatcher = m.dispatcher
  told : m'.emitted = m.emitted ++ seen.told

variable {m m' : Machine σ ε} {owner : TaskId}

/-- Neither the state nor the dispatcher changes, and nobody sees anything. -/
theorem Moves.silent {task task' : Task σ ε α}
    (moved : task.Moves possible m.state [] task' m.state) (state : m'.state = m.state)
    (dispatcher : m'.dispatcher = m.dispatcher) (told : m'.emitted = m.emitted) :
    m.Moves possible task [] m' task' where
  task := by
    rw [state]
    exact moved
  dispatcher := dispatcher
  told := told.trans (List.append_nil m.emitted).symm

theorem moves_wake? {task task' : Task σ ε α} (woken : m.wake? owner task = some (m', task')) :
    m.Moves possible task [] m' task' := by
  cases task with
  | ready program =>
      cases woken
      exact .silent (.still _ _) rfl rfl rfl
  | waiting ticket deadline next =>
      obtain ⟨⟨delivery, waiters⟩, -, same⟩ := Option.map_eq_some_iff.mp woken
      cases same
      exact .silent .waited rfl rfl rfl
  | blocked lock next =>
      obtain ⟨-, same⟩ := Option.ite_none_right_eq_some.mp woken
      cases same
      exact .silent .unblock rfl rfl rfl
  | finished a => cases woken

/-- Any operation of a task but a call to the target. -/
theorem moves_perform (others : EvalOp.OnlyCalls possible) (m : Machine σ ε) (owner : TaskId)
    (op : WorkOp σ ε) (next : op.Reply → Job σ ε α) (other : ∀ call, op ≠ .eval (.native call)) :
    m.Moves possible (.ready (.perform op next)) op.seen (m.perform owner op next).1
      (m.perform owner op next).2 := by
  cases op with
  | eval op =>
      cases op with
      | native call => exact absurd rfl (other call)
      | register eval thread =>
          have free := fun ticket => others (.register eval thread) ticket fun _ => nofun
          exact .silent (.perform ⟨free _, rfl⟩) rfl rfl rfl
      | cancel eval =>
          have free := others (.cancel eval) () fun _ => nofun
          exact .silent (.perform ⟨free, rfl⟩) rfl rfl rfl
      | wait ticket limit =>
          have answered (delivery : Option Delivery) :
              Task.Moves possible (.ready (.perform (.eval (.wait ticket limit)) next)) m.state []
                (.ready (next delivery)) m.state :=
            .perform ⟨others (.wait ticket limit) delivery fun _ => nofun, rfl⟩
          unfold perform
          dsimp only
          cases m.waiters.take? ticket with
          | some found => exact .silent (answered (some found.1)) rfl rfl rfl
          | none =>
              cases limit with
              | none => exact .silent .wait rfl rfl rfl
              | some n =>
                  cases n with
                  | zero => exact .silent (answered none) rfl rfl rfl
                  | succ n => exact .silent .wait rfl rfl rfl
  | update f => exact ⟨.perform ⟨rfl, rfl⟩, rfl, (List.append_nil _).symm⟩
  | emit event => exact ⟨.perform rfl, rfl, rfl⟩
  | acquire lock =>
      unfold perform
      dsimp only
      split
      · exact .silent (.perform rfl) rfl rfl rfl
      · exact .silent .block rfl rfl rfl
  | release lock => exact .silent (.perform rfl) rfl rfl rfl

end Machine

theorem WorkOp.called_seen {op : WorkOp σ ε} (other : ∀ call, op ≠ .eval (.native call)) :
    op.seen.called = [] := by
  cases op with
  | eval op =>
      cases op with
      | native call => exact absurd rfl (other call)
      | register eval thread => rfl
      | cancel eval => rfl
      | wait ticket limit => rfl
  | update f => rfl
  | emit event => rfl
  | acquire lock => rfl
  | release lock => rfl

/-- What a run can come to next: its request goes on, its dispatcher goes on, or the dispatcher
begins with a notification. -/
inductive Run.Moves (possible : Exchange evalEffect → Prop)
    (handle : Option (NativeEvent → Job σ ε Unit)) :
    Run σ ε α → Trace ε → Run σ ε α → Prop where
  | request {r r' : Run σ ε α} {seen : Trace ε} :
      r.machine.Moves possible r.request seen r'.machine r'.request →
      Moves possible handle r seen r'
  | dispatcher {r r' : Run σ ε α} {seen : Trace ε} :
      r.machine.dispatcher.Moves possible r.machine.state seen r'.machine.dispatcher
        r'.machine.state →
      r'.request = r.request → r'.machine.emitted = r.machine.emitted ++ seen.told →
      Moves possible handle r seen r'
  | begins {r r' : Run σ ε α} {f : NativeEvent → Job σ ε Unit} {event : NativeEvent} :
      handle = some f → r.machine.dispatcher = .finished () →
      r'.machine.dispatcher = .ready (f event) → r'.request = r.request →
      r'.machine.state = r.machine.state → r'.machine.emitted = r.machine.emitted →
      Moves possible handle r [] r'

/-- A step comes to a run with a property, whatever the target replies to its call if there is one.
A call is that of a task, or lets an evaluation go on. -/
def Step.Leads (possible : Exchange evalEffect → Prop) (P : Trace ε → Run σ ε α → Prop) :
    Step σ ε α → Prop
  | internal r => ∃ seen : Trace ε, seen.called = [] ∧ P seen r
  | call c next => ∀ reply, possible ⟨.native c, reply⟩ →
      P [.inr c] (next reply) ∨ c = .continueProcess ∧ P [] (next reply)
  | rest => True

/-- The target answers calls of tasks, one after the other, and lets evaluations go on between. -/
inductive Backend.Answers (backend : Backend τ) : τ → List NativeCall → τ → Prop where
  | nil (t : τ) : Answers backend t [] t
  | call {t t' : τ} {calls : List NativeCall} (call : NativeCall) :
      Answers backend (backend.answer call t).2.2 calls t' →
      Answers backend t (call :: calls) t'
  | onward {t t' : τ} {calls : List NativeCall} :
      Answers backend (backend.answer .continueProcess t).2.2 calls t' →
      Answers backend t calls t'

theorem Backend.Answers.append {backend : Backend τ} {t t' t'' : τ}
    {first second : List NativeCall} (left : backend.Answers t first t')
    (right : backend.Answers t' second t'') : backend.Answers t (first ++ second) t'' := by
  induction left with
  | nil t => exact right
  | call call _ inductionHypothesis => exact .call call (inductionHypothesis right)
  | onward _ inductionHypothesis => exact .onward (inductionHypothesis right)

/-- Whoever answers only gives replies that are possible. -/
def Backend.Within (backend : Backend τ) (possible : Exchange evalEffect → Prop) : Prop :=
  ∀ call t, possible ⟨.native call, (backend.answer call t).1⟩

namespace Run

variable {handle : Option (NativeEvent → Job σ ε Unit)} {r r' r'' : Run σ ε α}

/-- Neither task goes on. -/
theorem Moves.still (state : r'.machine.state = r.machine.state)
    (told : r'.machine.emitted = r.machine.emitted)
    (dispatcher : r'.machine.dispatcher = r.machine.dispatcher) (request : r'.request = r.request) :
    Moves possible handle r [] r' := by
  refine .request (.silent ?_ state dispatcher told)
  rw [request]
  exact .still _ _

/-- An operation that is no call to the target is performed by the machine. -/
theorem advance_perform {owner : TaskId} {op : WorkOp σ ε} {next : op.Reply → Job σ ε β}
    {put : Machine σ ε → Task σ ε β → Run σ ε α} (other : ∀ call, op ≠ .eval (.native call)) :
    r.advance owner (.ready (.perform op next)) put =
      .internal { put (r.machine.perform owner op next).1 (r.machine.perform owner op next).2 with
        turn := some owner } := by
  cases op with
  | eval op =>
      cases op with
      | native call => exact absurd rfl (other call)
      | register eval thread => rfl
      | cancel eval => rfl
      | wait ticket limit => rfl
  | update f => rfl
  | emit event => rfl
  | acquire lock => rfl
  | release lock => rfl

theorem leads_advance (others : EvalOp.OnlyCalls possible) {P : Trace ε → Run σ ε α → Prop}
    {owner : TaskId} {task : Task σ ε β} {put : Machine σ ε → Task σ ε β → Run σ ε α}
    (moved : ∀ seen m task' turn, r.machine.Moves possible task seen m task' →
      P seen { put m task' with turn := turn })
    (still : P [] { r with turn := none }) :
    (r.advance owner task put).Leads possible P := by
  cases task with
  | ready program =>
      cases program with
      | done a => exact ⟨[], rfl, moved _ _ _ _ (.silent .finish rfl rfl rfl)⟩
      | perform op next =>
          by_cases native : ∃ call, op = .eval (.native call)
          · obtain ⟨call, rfl⟩ := native
            intro reply answered
            refine .inl (moved _ _ _ _ ⟨.perform ⟨answered, rfl⟩, rfl, ?_⟩)
            exact (List.append_nil _).symm
          · have other : ∀ call, op ≠ .eval (.native call) := not_exists.mp native
            rw [advance_perform other]
            refine ⟨op.seen, WorkOp.called_seen other, moved _ _ _ _ ?_⟩
            exact Machine.moves_perform others r.machine owner op next other
  | waiting ticket deadline next => exact ⟨[], rfl, still⟩
  | blocked lock next => exact ⟨[], rfl, still⟩
  | finished a => exact ⟨[], rfl, still⟩

/-- An evaluation is let go on after a stop on its thread. -/
theorem leads_routeNext (event : NativeEvent) (rest : List NativeEvent) :
    (r.routeNext event rest).Leads possible (Moves possible handle r) := by
  unfold routeNext
  dsimp only
  split
  · exact ⟨[], rfl, .still rfl rfl rfl rfl⟩
  · exact fun _ _ => .inr ⟨rfl, .still rfl rfl rfl rfl⟩
  · exact ⟨[], rfl, .still rfl rfl rfl rfl⟩

theorem leads_expireFirst : r.expireFirst.Leads possible (Moves possible handle r) := by
  have request (t : Nat) :
      Moves possible handle r [] (putRequest { r.machine with now := t } r.request.expire r) :=
    .request (.silent (Task.moves_expire r.request _) rfl rfl rfl)
  have dispatcher (t : Nat) :
      Moves possible handle r []
        (putDispatcher { r.machine with now := t } r.machine.dispatcher.expire r) :=
    .dispatcher (Task.moves_expire r.machine.dispatcher _) rfl (List.append_nil _).symm
  unfold expireFirst
  dsimp only
  split
  · split
    · exact ⟨[], rfl, request _⟩
    · exact ⟨[], rfl, dispatcher _⟩
  · exact ⟨[], rfl, request _⟩
  · exact ⟨[], rfl, dispatcher _⟩
  · trivial

theorem moves_resumeRequest? (resumed : r.resumeRequest? = some r') :
    Moves possible handle r [] r' := by
  obtain ⟨⟨m, task⟩, woken, rfl⟩ := Option.map_eq_some_iff.mp resumed
  exact .request (Machine.moves_wake? woken)

theorem moves_resumeDispatcher? (resumed : r.resumeDispatcher? handle = some r') :
    Moves possible handle r [] r' := by
  unfold resumeDispatcher? at resumed
  split at resumed
  case h_1 m task woken =>
    cases resumed
    have moved : r.machine.Moves possible r.machine.dispatcher [] m task :=
      Machine.moves_wake? woken
    exact .dispatcher moved.task rfl moved.told
  case h_2 =>
    split at resumed
    case h_1 f event rest idle queue =>
      cases resumed
      exact .begins rfl idle rfl rfl rfl rfl
    case h_2 => cases resumed

theorem moves_resume? {owner : TaskId} (resumed : r.resume? handle owner = some r') :
    Moves possible handle r [] r' := by
  cases owner with
  | request => exact moves_resumeRequest? resumed
  | dispatcher => exact moves_resumeDispatcher? resumed

theorem leads_choose (first : TaskId) :
    (r.choose handle first).Leads possible (Moves possible handle r) := by
  unfold choose
  split
  · exact leads_routeNext _ _
  · split
    case h_1 resumed => exact ⟨[], rfl, moves_resume? resumed⟩
    case h_2 =>
      split
      case h_1 resumed => exact ⟨[], rfl, moves_resume? resumed⟩
      case h_2 => exact leads_expireFirst

/-- All that a step can do. -/
theorem leads_step (others : EvalOp.OnlyCalls possible) (first : TaskId) :
    (r.step handle first).Leads possible (Moves possible handle r) := by
  unfold step
  split
  · refine leads_advance others (fun _ _ _ _ moved => .request moved) ?_
    exact .still rfl rfl rfl rfl
  · refine leads_advance others (fun _ _ _ _ moved => .dispatcher moved.task rfl moved.told) ?_
    exact .still rfl rfl rfl rfl
  · exact leads_choose first

theorem moves_passTurn : Moves possible handle r [] (r.passTurn handle) := by
  unfold passTurn
  split
  case h_1 owner _ =>
    cases resumed : r.resume? handle owner.other with
    | none => exact .still rfl rfl rfl rfl
    | some r' => exact moves_resume? resumed
  case h_2 => exact .still rfl rfl rfl rfl

/-- Any number of moves. -/
inductive Passes (possible : Exchange evalEffect → Prop)
    (handle : Option (NativeEvent → Job σ ε Unit)) :
    Run σ ε α → Trace ε → Run σ ε α → Prop where
  | refl (r : Run σ ε α) : Passes possible handle r [] r
  | tail {r r' r'' : Run σ ε α} {first second : Trace ε} :
      Passes possible handle r first r' → Moves possible handle r' second r'' →
      Passes possible handle r (first ++ second) r''

theorem Passes.head {first second : Trace ε} (moved : Moves possible handle r first r')
    (passes : Passes possible handle r' second r'') :
    Passes possible handle r (first ++ second) r'' := by
  induction passes with
  | refl =>
      rw [List.append_nil, ← List.nil_append first]
      exact .tail (.refl r) moved
  | tail _ last inductionHypothesis =>
      rw [← List.append_assoc]
      exact .tail inductionHypothesis last

/-- Whatever the machine comes to, it comes to by moves, and the target has answered their calls. -/
theorem passes_toRest (others : EvalOp.OnlyCalls possible) {backend : Backend τ}
    (within : backend.Within possible) (fuel : Nat) (r : Run σ ε α) (t : τ) :
    ∃ seen, Passes possible handle r seen (r.toRest backend handle fuel t).1 ∧
      backend.Answers t seen.called (r.toRest backend handle fuel t).2 := by
  induction fuel generalizing r t with
  | zero => exact ⟨[], .refl r, .nil t⟩
  | succ fuel inductionHypothesis =>
      have leads : (r.step handle backend.first).Leads possible (Moves possible handle r) :=
        leads_step others backend.first
      have raised (r : Run σ ε α) (events : List NativeEvent) :
          Moves possible handle r [] { r with machine := r.machine.raise events } :=
        .still rfl rfl rfl rfl
      rw [toRest]
      cases stepped : r.step handle backend.first with
      | internal r' =>
          rw [stepped] at leads
          obtain ⟨seen, silent, moved⟩ := leads
          obtain ⟨rest, passes, answers⟩ := inductionHypothesis r' t
          refine ⟨seen ++ rest, passes.head moved, ?_⟩
          rw [Trace.called_append, silent]
          exact answers
      | call call next =>
          rw [stepped] at leads
          dsimp only
          generalize gone : (if backend.isRemote then
            (next (backend.answer call t).1).passTurn handle
            else next (backend.answer call t).1) = r'
          have turned : Moves possible handle (next (backend.answer call t).1) [] r' := by
            rw [← gone]
            split
            · exact moves_passTurn
            · exact .still rfl rfl rfl rfl
          obtain ⟨rest, passes, answers⟩ := inductionHypothesis
            { r' with machine := r'.machine.raise (backend.answer call t).2.1 }
            (backend.answer call t).2.2
          have onward := (passes.head (raised _ _)).head turned
          cases leads _ (within call t) with
          | inl moved => exact ⟨_, onward.head moved, .call call answers⟩
          | inr routed =>
              obtain ⟨rfl, moved⟩ := routed
              exact ⟨_, onward.head moved, .onward answers⟩
      | rest => exact ⟨[], .refl r, .nil t⟩

end Run

/-- What is left of the program of a task. -/
inductive Task.StandsAt : Task σ ε α → Job σ ε α → Prop where
  | ready (p : Job σ ε α) : StandsAt (.ready p) p
  | waiting (ticket : Ticket) (limit deadline : Option Nat)
      (next : Option Delivery → Job σ ε α) :
      StandsAt (.waiting ticket deadline next) (.perform (.eval (.wait ticket limit)) next)
  | blocked (lock : Lock) (next : Unit → Job σ ε α) :
      StandsAt (.blocked lock next) (.perform (.acquire lock) next)
  | finished (a : α) : StandsAt (.finished a) (.done a)

namespace Job

/-- A program that started in a state has come so far, alone, that another one is left of it. -/
structure Reaches (possible : Exchange evalEffect → Prop) (p : Job σ ε α) (s : σ)
    (es : List (Exchange (workEffect σ ε))) (rest : Job σ ε α) (s' : σ) : Prop where
  plays : ∀ more a, rest.Plays more a → p.Plays (es ++ more) a
  allowed : (alone possible).Allows s es s'

theorem Reaches.perform {p : Job σ ε α} {s s' s'' : σ} {es : List (Exchange (workEffect σ ε))}
    {op : WorkOp σ ε} {next : op.Reply → Job σ ε α} {reply : op.Reply}
    (reaches : p.Reaches possible s es (.perform op next) s')
    (here : alone possible s' ⟨op, reply⟩ s'') :
    p.Reaches possible s (es ++ [⟨op, reply⟩]) (next reply) s'' where
  plays := fun more a played => by
    rw [List.append_assoc]
    exact reaches.plays _ a (.perform played)
  allowed := Environment.allows_append_iff.mpr ⟨s', reaches.allowed, .cons here (.nil s'')⟩

/-- A task with what is left of a program, and what others have seen of it. -/
def Comes (possible : Exchange evalEffect → Prop) (p : Job σ ε α) (s : σ) (seen : Trace ε)
    (task : Task σ ε α) (s' : σ) : Prop :=
  ∃ es rest, task.StandsAt rest ∧ p.Reaches possible s es rest s' ∧ seen = seenOf es

variable {p : Job σ ε α} {s s' s'' : σ} {seen more : Trace ε} {task task' : Task σ ε α}

theorem comes_ready (p : Job σ ε α) (s : σ) : p.Comes possible s [] (.ready p) s :=
  ⟨[], p, .ready p, ⟨fun _ _ => id, .nil s⟩, rfl⟩

theorem Comes.move (others : EvalOp.OnlyCalls possible) (comes : p.Comes possible s seen task s')
    (moved : task.Moves possible s' more task' s'') :
    p.Comes possible s (seen ++ more) task' s'' := by
  obtain ⟨es, rest, stands, reaches, rfl⟩ := comes
  have silent : seenOf es ++ [] = seenOf es := List.append_nil _
  cases moved with
  | still => exact ⟨es, rest, stands, reaches, silent⟩
  | @perform op next reply _ _ here =>
      cases stands
      refine ⟨_, _, .ready _, reaches.perform here, ?_⟩
      rw [seenOf_append]
      exact congrArg (seenOf es ++ ·) (List.append_nil op.seen).symm
  | wait =>
      cases stands
      exact ⟨es, _, .waiting _ _ _ _, reaches, silent⟩
  | waited =>
      cases stands with
      | waiting ticket limit =>
          refine ⟨_, _, .ready _, reaches.perform ⟨?_, rfl⟩, ?_⟩
          · exact others (.wait _ limit) _ fun _ => nofun
          · rw [seenOf_append]
            rfl
  | block =>
      cases stands
      exact ⟨es, _, .blocked _ _, reaches, silent⟩
  | unblock =>
      cases stands
      refine ⟨_, _, .ready _, reaches.perform rfl, ?_⟩
      rw [seenOf_append]
      rfl
  | finish =>
      cases stands
      exact ⟨es, _, .finished _, reaches, silent⟩

/-- A task that has come to its end has played its program. -/
theorem Comes.plays {a : α} (comes : p.Comes possible s seen (.finished a) s') :
    ∃ es, p.Plays es a ∧ (alone possible).Allows s es s' ∧ seen = seenOf es := by
  obtain ⟨es, rest, stands, reaches, same⟩ := comes
  cases stands
  have played : p.Plays (es ++ []) a := reaches.plays [] a (.done a)
  rw [List.append_nil] at played
  exact ⟨es, played, reaches.allowed, same⟩

end Job

theorem Task.eq_finished_of_result? {task : Task σ ε α} {a : α} (result : task.result? = some a) :
    task = .finished a := by
  cases task with
  | finished b =>
      cases result
      rfl
  | _ => cases result

/-- While the dispatcher is held back, a request goes on alone. -/
theorem Run.Passes.comes (others : EvalOp.OnlyCalls possible) {p : Job σ ε α} {r r' : Run σ ε α}
    {seen : Trace ε} (passes : Passes possible none r seen r') (start : r.request = .ready p)
    (idle : r.machine.dispatcher = .finished ()) :
    r'.machine.dispatcher = .finished () ∧ r'.machine.emitted = r.machine.emitted ++ seen.told ∧
      p.Comes possible r.machine.state seen r'.request r'.machine.state := by
  induction passes with
  | refl =>
      rw [start]
      exact ⟨idle, (List.append_nil _).symm, Job.comes_ready p _⟩
  | tail _ moved inductionHypothesis =>
      obtain ⟨idle, told, comes⟩ := inductionHypothesis
      rw [Trace.told_append, ← List.append_assoc, ← told]
      cases moved with
      | request moved =>
          exact ⟨moved.dispatcher.trans idle, moved.told, comes.move others moved.task⟩
      | dispatcher moved request toldNow =>
          rw [idle] at moved
          obtain ⟨rfl, same, state⟩ := moved.of_finished
          rw [request, state, List.append_nil]
          exact ⟨same, toldNow, comes⟩
      | begins handled => cases handled

end ManagedDebugger
