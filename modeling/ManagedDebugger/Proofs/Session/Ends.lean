import ManagedDebugger.Proofs.Session.Lifetime
import ManagedDebugger.Proofs.Session.TidyTasks

/-!
# When a request comes to its end

A request that waits for no evaluation comes to its end if its target comes to rest, unless it wants
a lock that the dispatcher holds while it waits for an evaluation that may take forever. To launch a
process, to attach to one and to disconnect are such requests.
-/

namespace ManagedDebugger

variable {σ ε α β τ : Type}

/-! ## What a task waits for -/

def EvalOp.isWait : EvalOp → Bool
  | wait .. => true
  | native _ | register .. | cancel _ => false

/-- Nothing is waited for but some locks. -/
def WorkOp.Awaits (locks : List Lock) : WorkOp σ ε → Prop
  | .eval op => op.isWait = false
  | .acquire lock => lock ∈ locks
  | .update _ | .emit _ | .release _ => True

def Job.Awaits (locks : List Lock) (p : Job σ ε α) : Prop := p.Only (WorkOp.Awaits locks)

def Task.Awaits (locks : List Lock) (task : Task σ ε α) : Prop :=
  ∃ rest, task.StandsAt rest ∧ rest.Awaits locks

namespace Job.Awaits

variable {locks : List Lock}

/-- What waits for no lock may wait for some. -/
theorem of_nil {p : Job σ ε α} (awaits : p.Awaits []) : p.Awaits locks := by
  refine awaits.mono fun op => ?_
  cases op with
  | acquire lock => exact fun among => absurd among List.not_mem_nil
  | eval op | update f | emit event | release lock => exact id

theorem pure (a : α) : Awaits locks (Pure.pure a : Job σ ε α) := Program.Only.done a

theorem bind {p : Job σ ε α} {f : α → Job σ ε β} (first : p.Awaits locks)
    (second : ∀ a, (f a).Awaits locks) : (p >>= f).Awaits locks :=
  Program.Only.bind first second

theorem run_bind {p : Work σ ε α} {f : α → Work σ ε β} (first : Awaits locks p.run)
    (second : ∀ a, Awaits locks (f a).run) : Awaits locks (p >>= f).run :=
  Program.Only.run_bind first second

theorem ask {op : WorkOp σ ε} (awaits : op.Awaits locks) :
    Awaits locks (Program.ask (E := workEffect σ ε) op) :=
  Program.Only.perform awaits fun _ => .done _

theorem update (f : σ → α × σ) : Awaits locks (Job.update f : Job σ ε α) :=
  .bind (.ask trivial) fun _ => .pure _

theorem ofJob {p : Job σ ε α} (awaits : p.Awaits locks) : Awaits locks (Work.ofJob p).run :=
  .bind awaits fun _ => .pure _

theorem native (c : NativeCall) : Awaits locks (Job.native (Native.call c) : Job σ ε c.Reply) :=
  Program.Only.perform rfl fun _ => .done _

theorem call (c : NativeCall) : Awaits locks (Work.native c : Work σ ε c.Answer).run :=
  .bind (.native c) fun _ => .pure _

theorem locked {lock : Lock} {p : Job σ ε α} (among : lock ∈ locks) (inside : p.Awaits locks) :
    Awaits locks (Job.locked lock p) :=
  .bind (.ask among) fun _ => .bind inside fun _ => .bind (.ask trivial) fun _ => .pure _

theorem working {p : Program evalEffect α} (prompt : p.Only fun op => op.isWait = false) :
    Awaits locks (p.working : Job σ ε α) :=
  Program.Only.working prompt fun _ => id

end Job.Awaits

namespace Task.Awaits

variable {locks : List Lock} {task task' : Task σ ε α}

theorem ready {p : Job σ ε α} (awaits : p.Awaits locks) : Awaits locks (.ready p) :=
  ⟨p, .ready p, awaits⟩

theorem next {op : WorkOp σ ε} {next : op.Reply → Job σ ε α} {reply : op.Reply}
    (awaits : Job.Awaits locks (.perform op next)) : Awaits locks (.ready (next reply)) := by
  refine .ready fun es a played x among => ?_
  exact awaits _ a (.perform played) x (List.mem_cons_of_mem _ among)

theorem move {possible : Exchange evalEffect → Prop} {s s' : σ} {seen : Trace ε}
    (awaits : task.Awaits locks) (moved : task.Moves possible s seen task' s') :
    task'.Awaits locks := by
  obtain ⟨rest, stands, awaits⟩ := awaits
  cases moved with
  | still => exact ⟨rest, stands, awaits⟩
  | perform =>
      cases stands
      exact .next awaits
  | wait =>
      cases stands
      exact ⟨_, .waiting _ _ _ _, awaits⟩
  | waited =>
      cases stands
      exact .next awaits
  | block =>
      cases stands
      exact ⟨_, .blocked _ _, awaits⟩
  | unblock =>
      cases stands
      exact .next awaits
  | finish =>
      cases stands
      exact ⟨_, .finished _, awaits⟩

end Task.Awaits

theorem Run.Passes.awaits {possible : Exchange evalEffect → Prop}
    {handle : Option (NativeEvent → Job σ ε Unit)} {r r' : Run σ ε α} {seen : Trace ε}
    {locks : List Lock} (passes : Passes possible handle r seen r')
    (awaits : r.request.Awaits locks) : r'.request.Awaits locks := by
  induction passes with
  | refl => exact awaits
  | tail _ moved inductionHypothesis =>
      have awaits := inductionHypothesis
      cases moved with
      | request moved => exact awaits.move moved.task
      | dispatcher _ request _ =>
          rw [request]
          exact awaits
      | begins _ _ _ request _ _ =>
          rw [request]
          exact awaits

/-- A task wants a lock that the dispatcher holds while it waits for an evaluation that may take
forever. -/
structure Machine.Stalls (m : Machine σ ε) (lock : Lock) (task : Task σ ε α) : Prop where
  wants : task.wants? = some lock
  held : m.isHeldBy lock .dispatcher = true
  pends : m.Pends m.dispatcher

namespace Session

open Job

/-- Nothing is waited for to give up a step. -/
theorem prompt_cancel (st : StepState) : (Step.cancel.run st).Only fun op => op.isWait = false := by
  cases st with
  | idle => exact .done _
  | stepping thread kind => exact .perform rfl fun _ => .done _
  | awaitingYield thread kind method b resumeOffset =>
      exact .perform rfl fun _ => .perform rfl fun _ => .done _
  | awaitingResume thread kind b identity =>
      cases identity with
      | none => exact .perform rfl fun _ => .done _
      | some id => exact .perform rfl fun _ => .perform rfl fun _ => .done _

theorem awaits_cancelStep : Awaits [.stepper] cancelStep := by
  refine .bind (.bind (.update _) fun s => .locked (List.mem_singleton_self _) ?_) fun _ => .pure _
  refine .bind (.update _) fun before => .bind (.working (prompt_cancel _)) fun _ => ?_
  exact .bind (.update _) fun _ => .pure _

theorem awaits_disconnect (kill : Bool) : Awaits [.stepper] (disconnect kill) := by
  refine .bind (.bind (.update _) fun _ => .pure _) fun live => ?_
  split
  · refine .bind awaits_cancelStep fun _ => .bind (.update _) fun _ => ?_
    exact .bind (.native _) fun _ => .pure _
  · exact .pure _

theorem awaits_launch (request : LaunchRequest) : Awaits [] (launch request).run :=
  .run_bind (.call _) fun _ => .run_bind (.ofJob (.update _)) fun _ => .pure _

theorem awaits_attach (pid : UInt32) : Awaits [] (attach pid).run :=
  .run_bind (.call _) fun _ => .ofJob (.update _)

/-- The first operation of a program is of the kind of all. -/
theorem kind_of_only {kind : WorkOp SessionState SessionEvent → Prop}
    {op : WorkOp SessionState SessionEvent} {next : op.Reply → SessionJob α}
    (only : Program.Only (.perform (E := workEffect SessionState SessionEvent) op next) kind)
    (s : SessionState) : kind op := by
  have played := Program.plays_simulate (E := workEffect SessionState SessionEvent)
    (respond fun _ => default) (.perform op next) s
  exact only _ _ played _ List.mem_cons_self

/-- A request that waits for locks at most comes to its end, or wants one of them and the dispatcher
has it for as long as an evaluation takes. -/
theorem ends_or_stalls {backend : Backend τ} {load : τ → Nat} (subsides : backend.Subsides load)
    {m : Machine SessionState SessionEvent} {task : Task SessionState SessionEvent α}
    {locks : List Lock} (fair : Run.Fair ⟨m, task, none⟩) (awaits : task.Awaits locks) (t : τ) :
    ∃ enough, ∀ fuel ≥ enough,
      let (task', m', _) := m.work backend (some handle) fuel task t
      task'.result?.isSome = true ∨ ∃ lock ∈ locks, m'.Stalls lock task' := by
  have comes : Run.ComesToRest backend (some handle) ⟨m, task, none⟩ t :=
    Run.comesToRest subsides _ t
  obtain ⟨enough, r', t', rests, same⟩ := comes
  refine ⟨enough, fun fuel more => ?_⟩
  have fair' : (Run.toRest backend (some handle) fuel ⟨m, task, none⟩ t).1.Fair :=
    fair.toRest tidies_handle fuel t
  obtain ⟨seen, passes, -⟩ :=
    Run.passes_toRest_anyReply backend (some handle) fuel ⟨m, task, none⟩ t
  have awaits' := passes.awaits awaits
  unfold Machine.work
  rw [same fuel more] at fair' awaits' ⊢
  dsimp only
  cases fair'.rests rests with
  | inl ended => exact .inl ended
  | inr pends =>
      obtain ⟨rest, stands, awaits'⟩ := awaits'
      cases pends with
      | evaluation pends =>
          obtain ⟨ticket, next, waits, -⟩ := pends
          rw [waits] at stands
          cases stands
          cases kind_of_only awaits' r'.machine.state
      | @lock lock next wants held pends =>
          rw [wants] at stands ⊢
          cases stands
          have among : lock ∈ locks := kind_of_only awaits' r'.machine.state
          exact .inr ⟨lock, among, rfl, held, pends⟩

/-- Under a target that answers and raises nothing, such a request comes to its end, unless the
dispatcher was at work before. -/
theorem ends_of_undisturbed {backend : Backend τ} (silent : backend.Subsides fun _ => 0)
    {m : Machine SessionState SessionEvent} {task : Task SessionState SessionEvent α}
    {locks : List Lock} (undisturbed : Run.Undisturbed ⟨m, task, none⟩)
    (fair : Run.Fair ⟨m, task, none⟩) (awaits : task.Awaits locks) (t : τ) :
    ∃ enough, ∀ fuel ≥ enough,
      (m.work backend (some handle) fuel task t).1.result?.isSome = true := by
  obtain ⟨enough, outcome⟩ := ends_or_stalls silent fair awaits t
  refine ⟨enough, fun fuel more => ?_⟩
  have left : (Run.toRest backend (some handle) fuel ⟨m, task, none⟩ t).1.Undisturbed :=
    undisturbed.toRest silent fuel t
  cases outcome fuel more with
  | inl ended => exact ended
  | inr stalled =>
      obtain ⟨lock, -, -, -, pends⟩ := stalled
      obtain ⟨ticket, next, waits, -⟩ := pends
      cases left.dispatcher.symm.trans waits

end Session

end ManagedDebugger
