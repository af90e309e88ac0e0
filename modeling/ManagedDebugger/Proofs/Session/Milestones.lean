import ManagedDebugger.Proofs.Session.Composition
import ManagedDebugger.Proofs.Session.Moves
import ManagedDebugger.Server.Response

/-!
# Calls that begin and end the work on a process

A process is launched or attached to, and later terminated or detached from. Nothing of that is done
while a notification is handled. So it is for the requests of the front end alone to begin and to end
the work on a process, and a session that is told to disconnect ends it once, if it is live then.
-/

namespace ManagedDebugger

variable {σ ε α β : Type}

namespace Trace

def milestones (seen : Trace ε) : List NativeCall := seen.called.filter (·.isMilestone)

@[simp]
theorem milestones_append (first second : Trace ε) :
    milestones (first ++ second) = first.milestones ++ second.milestones := by
  simp [milestones]

end Trace

/-- The milestones of a transcript. -/
def milestonesOf (es : List (Exchange (workEffect σ ε))) : List NativeCall := (seenOf es).milestones

@[simp]
theorem milestonesOf_append (first second : List (Exchange (workEffect σ ε))) :
    milestonesOf (first ++ second) = milestonesOf first ++ milestonesOf second := by
  simp [milestonesOf, seenOf_append]

theorem milestonesOf_cons (x : Exchange (workEffect σ ε))
    (rest : List (Exchange (workEffect σ ε))) :
    milestonesOf (x :: rest) = (WorkOp.seen x.op).milestones ++ milestonesOf rest :=
  Trace.milestones_append (WorkOp.seen x.op) (seenOf rest)

/-- No milestone. -/
def WorkOp.Quiet (op : WorkOp σ ε) : Prop := op.seen.milestones = []

theorem milestonesOf_eq_nil {es : List (Exchange (workEffect σ ε))}
    (quiet : ∀ x ∈ es, WorkOp.Quiet x.op) : milestonesOf es = [] := by
  induction es with
  | nil => rfl
  | cons x rest inductionHypothesis =>
      obtain ⟨here, others⟩ := List.forall_mem_cons.mp quiet
      rw [milestonesOf_cons, here, inductionHypothesis others]
      rfl

theorem EvalOp.quiet_eval {op : EvalOp} (quiet : op.isQuiet = true) :
    WorkOp.Quiet (.eval op : WorkOp σ ε) := by
  cases op with
  | native c =>
      have none : c.isMilestone = false := by simpa [isQuiet] using quiet
      simp [WorkOp.Quiet, WorkOp.seen, Trace.milestones, Trace.called, none]
  | register eval thread => rfl
  | cancel eval => rfl
  | wait ticket limit => rfl

/-! ## Quiet tasks -/

/-- Whatever is replied, a task does nothing but quiet operations. -/
def Job.Quiet (p : Job σ ε α) : Prop := p.Only WorkOp.Quiet

namespace Job.Quiet

theorem pure (a : α) : Quiet (Pure.pure a : Job σ ε α) := Program.Only.done a

theorem bind {p : Job σ ε α} {f : α → Job σ ε β} (first : p.Quiet)
    (second : ∀ a, (f a).Quiet) : (p >>= f).Quiet :=
  Program.Only.bind first second

theorem run_bind {p : Work σ ε α} {f : α → Work σ ε β} (first : Quiet p.run)
    (second : ∀ a, Quiet (f a).run) : Quiet (p >>= f).run :=
  Program.Only.run_bind first second

theorem ask {op : WorkOp σ ε} (quiet : op.Quiet) : Quiet (Program.ask (E := workEffect σ ε) op) :=
  Program.Only.perform quiet fun _ => .done _

theorem update (f : σ → α × σ) : Quiet (Job.update f : Job σ ε α) :=
  .bind (.ask rfl) fun _ => .pure _

theorem emit (event : ε) : Quiet (Job.emit event : Job σ ε Unit) := .ask rfl

theorem locked {lock : Lock} {p : Job σ ε α} (inside : p.Quiet) : Quiet (Job.locked lock p) :=
  .bind (.ask rfl) fun _ => .bind inside fun _ => .bind (.ask rfl) fun _ => .pure _

theorem working {p : Program evalEffect α} (quiet : p.Only fun op => op.isQuiet = true) :
    Quiet (p.working : Job σ ε α) :=
  Program.Only.working quiet fun _ => EvalOp.quiet_eval

theorem ofJob {p : Job σ ε α} (quiet : p.Quiet) : Quiet (Work.ofJob p).run :=
  .bind quiet fun _ => .pure _

end Job.Quiet

namespace Session

theorem closed_quiet : Job.Closed fun p => Job.Quiet p where
  pure := .pure
  bind := .bind
  update := .update
  emit := .emit
  working := .working
  onStep orderly := by
    refine .bind (.update _) fun s => .locked (.bind (.update _) fun before => ?_)
    exact .bind (.working ((orderly _).quiet _)) fun _ => .bind (.update _) fun _ => .pure _
  onBreakpoints quiet := by
    refine .locked (.bind (.update _) fun s => ?_)
    exact .bind (.working (quiet _ _).evaluating) fun _ => .bind (.update _) fun _ => .pure _

/-- No notification makes the dispatcher begin or end the work on a process. -/
theorem quiet_handle (event : NativeEvent) : (handle event).Quiet := closed_quiet.handle event

end Session

/-! ## Requests that begin or end the work -/

/-- However a task goes, its milestones are as wanted. -/
def Job.Meets (p : Job σ ε α) (wanted : List NativeCall → Prop) : Prop :=
  ∀ es a, p.Plays es a → wanted (milestonesOf es)

namespace Job.Meets

variable {wanted : List NativeCall → Prop}

theorem done {a : α} (met : wanted []) : Meets (Program.done a : Job σ ε α) wanted := by
  intro es b played
  obtain ⟨rfl, rfl⟩ := Program.plays_done_iff.mp played
  exact met

theorem ofQuiet {p : Job σ ε α} (quiet : p.Quiet) : p.Meets (· = []) :=
  fun es a played => milestonesOf_eq_nil (quiet es a played)

theorem next {op : WorkOp σ ε} {next : op.Reply → Job σ ε α}
    (meets : Meets (Program.perform (E := workEffect σ ε) op next) wanted) (reply : op.Reply) :
    (next reply).Meets fun more => wanted (op.seen.milestones ++ more) := by
  intro es a played
  have whole := meets _ a (.perform played)
  rwa [milestonesOf_cons] at whole

theorem bind_quiet {p : Job σ ε α} {f : α → Job σ ε β} (first : p.Meets wanted)
    (second : ∀ a, (f a).Quiet) : (p >>= f).Meets wanted := by
  intro es b played
  obtain ⟨es₁, a, es₂, left, right, rfl⟩ := Program.plays_bind_iff.mp played
  rw [milestonesOf_append, ofQuiet (second a) es₂ b right, List.append_nil]
  exact first es₁ a left

theorem quiet_bind {p : Job σ ε α} {f : α → Job σ ε β} (first : p.Quiet)
    (second : ∀ a, (f a).Meets wanted) : (p >>= f).Meets wanted := by
  intro es b played
  obtain ⟨es₁, a, es₂, left, right, rfl⟩ := Program.plays_bind_iff.mp played
  rw [milestonesOf_append, ofQuiet first es₁ a left]
  exact second a es₂ b right

theorem native {c : NativeCall} (milestone : c.isMilestone = true) :
    Meets (Job.native (Native.call c) : Job σ ε c.Reply) (· = [c]) := by
  intro es a played
  obtain ⟨reply, rest, rfl, ended⟩ := Program.plays_perform_iff.mp played
  obtain ⟨rfl, rfl⟩ := Program.plays_done_iff.mp ended
  simp [milestonesOf, seenOf, WorkOp.seen, Trace.milestones, Trace.called, milestone]

theorem run_bind_quiet {p : Work σ ε α} {f : α → Work σ ε β} (first : Meets p.run wanted)
    (second : ∀ a, Quiet (f a).run) : Meets (p >>= f).run wanted := by
  refine bind_quiet first fun result => ?_
  cases result with
  | ok a => exact second a
  | error e => exact .pure _

end Job.Meets

namespace Session

/-- The call that ends the work on a process. -/
def endingCall (kill : Bool) : NativeCall := if kill then .terminate else .detach

/-- The milestones of a session that is told to disconnect. -/
def endingCalls (kill live : Bool) : List NativeCall := if live then [endingCall kill] else []

theorem meets_launch (request : LaunchRequest) :
    Job.Meets (pidJson <$> launch request : SessionWork Json).run (· = [.launch request]) := by
  refine .run_bind_quiet (.run_bind_quiet (.bind_quiet (.native rfl) fun _ => .pure _) ?_) ?_
  · exact fun pid => .run_bind (.ofJob (.update _)) fun _ => .pure _
  · exact fun _ => .pure _

theorem meets_attach (pid : UInt32) :
    Job.Meets ((fun _ => pidJson pid) <$> attach pid : SessionWork Json).run
      (· = [.attach pid]) := by
  refine .run_bind_quiet (.run_bind_quiet (.bind_quiet (.native rfl) fun _ => .pure _) ?_) ?_
  · exact fun _ => .ofJob (.update _)
  · exact fun _ => .pure _

/-- A session that is told to disconnect first reads whether it is live. -/
theorem exists_disconnect (f : Unit → α) (kill : Bool) :
    ∃ rest : SessionState → SessionJob α,
      f <$> disconnect kill = .perform (.update fun s => s) rest ∧
      ∀ s, (rest s).Meets (· = endingCalls kill s.process.status.isLive) := by
  refine ⟨_, rfl, fun s => .bind_quiet ?_ fun _ => .pure _⟩
  change Job.Meets (if s.process.status.isLive = true then _ else _) _
  unfold endingCalls
  split
  · refine .quiet_bind closed_quiet.cancelStep fun _ => .quiet_bind (.update _) fun _ => ?_
    refine .bind_quiet (.native ?_) fun _ => .pure _
    cases kill <;> rfl
  · exact .done rfl

end Session

end ManagedDebugger
