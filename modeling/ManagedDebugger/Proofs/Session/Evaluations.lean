import ManagedDebugger.Proofs.Session.Decision

/-!
# What the target replied to a task

The operations of a task together with their replies determine what it came to. A task that hands
the target over to the step controller, or to the breakpoints, plays just what that part plays, and
changes its part of the state and nothing else.
-/

namespace ManagedDebugger

variable {σ ε α : Type}

/-- What an operation was of an evaluation, if it was one. -/
def Exchange.evaluation? : Exchange (workEffect σ ε) → Option (Exchange evalEffect)
  | ⟨.eval op, reply⟩ => some ⟨op, reply⟩
  | _ => none

/-- The operations of the evaluations in a task, with their replies. -/
def evaluations (es : List (Exchange (workEffect σ ε))) : List (Exchange evalEffect) :=
  es.filterMap Exchange.evaluation?

@[simp]
theorem evaluations_nil : evaluations ([] : List (Exchange (workEffect σ ε))) = [] := rfl

@[simp]
theorem evaluations_append (first second : List (Exchange (workEffect σ ε))) :
    evaluations (first ++ second) = evaluations first ++ evaluations second :=
  List.filterMap_append

@[simp]
theorem evaluations_map_ofEval (ops : List (Exchange evalEffect)) :
    evaluations (ops.map .ofEval : List (Exchange (workEffect σ ε))) = ops := by
  induction ops with
  | nil => rfl
  | cons x rest inductionHypothesis => exact congrArg (x :: ·) inductionHypothesis

@[simp]
theorem evaluations_eval (op : EvalOp) (reply : op.Reply)
    (rest : List (Exchange (workEffect σ ε))) :
    evaluations (⟨.eval op, reply⟩ :: rest) = ⟨op, reply⟩ :: evaluations rest := rfl

@[simp]
theorem evaluations_update (f : σ → σ) (before : σ) (rest : List (Exchange (workEffect σ ε))) :
    evaluations (⟨.update f, before⟩ :: rest) = evaluations rest := rfl

@[simp]
theorem evaluations_emit (event : ε) (rest : List (Exchange (workEffect σ ε))) :
    evaluations (⟨.emit event, ()⟩ :: rest) = evaluations rest := rfl

@[simp]
theorem evaluations_acquire (lock : Lock) (rest : List (Exchange (workEffect σ ε))) :
    evaluations (⟨.acquire lock, ()⟩ :: rest) = evaluations rest := rfl

@[simp]
theorem evaluations_release (lock : Lock) (rest : List (Exchange (workEffect σ ε))) :
    evaluations (⟨.release lock, ()⟩ :: rest) = evaluations rest := rfl

theorem evalOps_eq (es : List (Exchange (workEffect σ ε))) :
    evalOps es = (evaluations es).map (·.op) := by
  induction es with
  | nil => rfl
  | cons x rest inductionHypothesis =>
      obtain ⟨op, reply⟩ := x
      cases op with
      | eval op => exact congrArg (op :: ·) inductionHypothesis
      | update f => exact inductionHypothesis
      | emit event => exact inductionHypothesis
      | acquire lock => exact inductionHypothesis
      | release lock => exact inductionHypothesis

/-- Two transcripts of a program agree as soon as one goes on where the other does: the replies
determine the program. -/
theorem Program.Plays.unique {E : Effect} {p : Program E α} {es es' : List (Exchange E)} {a a' : α}
    (played : p.Plays es a) (played' : p.Plays es' a') {more more' : List (Exchange E)}
    (agree : es ++ more = es' ++ more') : es = es' ∧ a = a' := by
  induction played generalizing es' with
  | done a =>
      obtain ⟨rfl, rfl⟩ := plays_done_iff.mp played'
      exact ⟨rfl, rfl⟩
  | perform following inductionHypothesis =>
      obtain ⟨reply, rest, rfl, following'⟩ := plays_perform_iff.mp played'
      obtain ⟨here, others⟩ := List.cons.inj agree
      cases here
      obtain ⟨rfl, same⟩ := inductionHypothesis following' others
      exact ⟨rfl, same⟩

namespace Session

open Job

variable {possible : Exchange evalEffect → Prop}

/-- A part of a task that works on nothing but the target. -/
theorem ensures_evaluating {p : Program evalEffect α} (s : SessionState) :
    (p.working : SessionJob α).Ensures (alone possible) s fun es s' a =>
      emitted es = [] ∧ s' = s ∧ p.Plays (evaluations es) a ∧ ∀ x ∈ evaluations es, possible x := by
  apply ensures_working
  intro ops _ a played allowed
  rw [evaluations_map_ofEval]
  exact ⟨emitted_map_ofEval ops, rfl, played, Environment.allows_ofReplies_iff.mp allowed⟩

/-- A call to the target ends a task that may fail, or the task goes on with the answer. -/
theorem native_bind {β : Type} {c : NativeCall} {f : c.Answer → SessionWork β} {s : SessionState}
    {Q : Transcript → SessionState → Except EngineError β → Prop}
    (ok : ∀ answer, possible ⟨.native c, .ok answer⟩ →
      (f answer).run.Ensures (alone possible) s fun more =>
        Q (⟨.eval (.native c), .ok answer⟩ :: more))
    (error : ∀ e, possible ⟨.native c, .error e⟩ →
      Q [⟨.eval (.native c), .error e⟩] s (.error (.native e))) :
    (Work.native c >>= f).run.Ensures (alone possible) s Q := by
  refine Program.ensures_perform_iff.mpr ?_
  rintro reply s' ⟨replied, rfl⟩
  cases reply with
  | ok answer => exact ok answer replied
  | error e => exact Program.ensures_done_iff.mpr (error e replied)

/-- What stepping depends on, in a state of the session. -/
def stepContext (s : SessionState) : StepContext :=
  ⟨s.symbols, s.config.justMyCode, s.config.evalTimeout⟩

/-- What the step controller plays when it is at work in a session. -/
theorem plays_onStep (p : StepContext → Stepping α) (s : SessionState) :
    (onStep p).Ensures (alone possible) s fun es s' r =>
      emitted es = [] ∧ s' = { s with step := s'.step } ∧
        ((p (stepContext s)).run s.step).Plays (evaluations es) (r, s'.step) ∧
          ∀ x ∈ evaluations es, possible x := by
  apply update_bind
  apply ensures_locked
  apply update_bind
  refine Program.Ensures.bind (ensures_evaluating s) ?_
  rintro es _ ⟨r, st⟩ ⟨silent, rfl, played, replied⟩
  apply update_bind
  refine Program.ensures_done_iff.mpr ⟨by simpa [emitted] using silent, rfl, ?_, ?_⟩
  · simpa [stepContext] using played
  · simpa using replied

/-- What is played when a task works on the breakpoints. -/
theorem plays_onBreakpoints
    (p : SymbolTable → BreakpointRegistry → Program nativeEffect (α × BreakpointRegistry))
    (s : SessionState) :
    (onBreakpoints p).Ensures (alone possible) s fun es s' a =>
      emitted es = [] ∧ s' = { s with breakpoints := s'.breakpoints } ∧
        ∃ calls, (p s.symbols s.breakpoints).Plays calls (a, s'.breakpoints) ∧
          evaluations es = calls.map .ofNative := by
  apply ensures_locked
  apply update_bind
  refine Program.Ensures.bind (ensures_evaluating s) ?_
  rintro es _ ⟨a, r⟩ ⟨silent, rfl, played, -⟩
  obtain ⟨calls, called, same⟩ := Program.plays_evaluating_iff.mp played
  apply update_bind
  refine Program.ensures_done_iff.mpr ⟨by simpa [emitted] using silent, rfl, calls, called, ?_⟩
  simpa using same

end Session

end ManagedDebugger
