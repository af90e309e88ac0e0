import ManagedDebugger.Proofs.Session.Moves
import ManagedDebugger.Proofs.Session.Turn

/-!
# One thing at a time

While the dispatcher is held back, a request is a turn; and while there is no request, notifications
are turns, one after the other. So whatever a machine does that is given one thing at a time is a
run: it has the states of a run, and the front end is told and the target called as in the run.
-/

namespace ManagedDebugger

namespace Session

variable {τ : Type} {possible : Exchange evalEffect → Prop}

/-- Whether the front end asked for it. -/
def Input.isRequest : Input → Bool
  | notified _ => false
  | _ => true

/-- What the front end asked for in some turns. -/
def requestsIn (ts : List Turn) : List Input := (ts.map (·.input)).filter (·.isRequest)

/-- What others see of some turns. -/
def seenIn (ts : List Turn) : Trace SessionEvent := ts.flatMap fun t => seenOf t.transcript

theorem requestsIn_append (first second : List Turn) :
    requestsIn (first ++ second) = requestsIn first ++ requestsIn second := by
  simp only [requestsIn, List.map_append, List.filter_append]

theorem seenIn_append (first second : List Turn) :
    seenIn (first ++ second) = seenIn first ++ seenIn second :=
  List.flatMap_append

theorem requestsIn_notified {ts : List Turn}
    (notified : ∀ t ∈ ts, ∃ event, t.input = .notified event) : requestsIn ts = [] := by
  refine List.filter_eq_nil_iff.mpr fun input member => ?_
  obtain ⟨t, among, rfl⟩ := List.mem_map.mp member
  obtain ⟨event, same⟩ := notified t among
  rw [same]
  exact Bool.false_ne_true

/-- Only notifications have been handled, one after the other. -/
def Notifies (possible : Exchange evalEffect → Prop) (s : SessionState)
    (seen : Trace SessionEvent) (s' : SessionState) : Prop :=
  ∃ ts, Runs possible s ts s' ∧ (∀ t ∈ ts, ∃ event, t.input = .notified event) ∧ seen = seenIn ts

/-- The dispatcher is idle, or amid the handling of a notification. -/
inductive Dispatching (possible : Exchange evalEffect → Prop) (s : SessionState) :
    Trace SessionEvent → Task SessionState SessionEvent Unit → SessionState → Prop where
  | idle {seen : Trace SessionEvent} {s' : SessionState} :
      Notifies possible s seen s' → Dispatching possible s seen (.finished ()) s'
  | amid {event : NativeEvent} {task : Task SessionState SessionEvent Unit}
      {seen more : Trace SessionEvent} {s' s'' : SessionState} :
      Notifies possible s seen s' → (handle event).Comes possible s' more task s'' →
      Dispatching possible s (seen ++ more) task s''

variable {s s' s'' : SessionState} {seen more : Trace SessionEvent}

theorem Notifies.handle {event : NativeEvent} (notifies : Notifies possible s seen s')
    (comes : (handle event).Comes possible s' more (.finished ()) s'') :
    Notifies possible s (seen ++ more) s'' := by
  obtain ⟨ts, run, notified, rfl⟩ := notifies
  obtain ⟨es, played, allowed, rfl⟩ := comes.plays
  let turn : Turn := ⟨.notified event, s', es, .ok doneJson, s''⟩
  have plays : turn.input.task.Plays (es ++ []) turn.answer := played.bind (.done _)
  rw [List.append_nil] at plays
  have happens : turn.Happens possible := ⟨plays, allowed⟩
  refine ⟨ts ++ [turn], runs_append_iff.mpr ⟨s', run, .cons happens (.nil s'')⟩, ?_, ?_⟩
  · exact List.forall_mem_append.mpr ⟨notified, List.forall_mem_singleton.mpr ⟨event, rfl⟩⟩
  · rw [seenIn_append]
    exact congrArg (seenIn ts ++ ·) (List.append_nil (seenOf es)).symm

theorem Dispatching.notifies (dispatching : Dispatching possible s seen (.finished ()) s') :
    Notifies possible s seen s' := by
  cases dispatching with
  | idle notifies => exact notifies
  | amid notifies comes => exact notifies.handle comes

theorem Dispatching.move (others : EvalOp.OnlyCalls possible)
    {task task' : Task SessionState SessionEvent Unit}
    (dispatching : Dispatching possible s seen task s')
    (moved : task.Moves possible s' more task' s'') :
    Dispatching possible s (seen ++ more) task' s'' := by
  cases dispatching with
  | idle notifies =>
      obtain ⟨rfl, rfl, rfl⟩ := moved.of_finished
      rw [List.append_nil]
      exact .idle notifies
  | amid notifies comes =>
      rw [List.append_assoc]
      exact .amid notifies (comes.move others moved)

/-- Without a request, the dispatcher goes on alone. -/
theorem dispatching_passes (others : EvalOp.OnlyCalls possible)
    {r r' : Run SessionState SessionEvent Unit}
    (passes : Run.Passes possible (some handle) r seen r')
    (spent : r.request = .ready (.done ()) ∨ r.request = .finished ())
    (idle : r.machine.dispatcher = .finished ()) :
    (r'.request = .ready (.done ()) ∨ r'.request = .finished ()) ∧
      r'.machine.emitted = r.machine.emitted ++ seen.told ∧
      Dispatching possible r.machine.state seen r'.machine.dispatcher r'.machine.state := by
  induction passes with
  | refl =>
      rw [idle]
      exact ⟨spent, (List.append_nil _).symm, .idle ⟨[], .nil _, List.forall_mem_nil _, rfl⟩⟩
  | tail _ moved inductionHypothesis =>
      obtain ⟨spent, told, dispatching⟩ := inductionHypothesis
      rw [Trace.told_append, ← List.append_assoc, ← told]
      cases moved with
      | request moved =>
          obtain ⟨rfl, spent, state⟩ := moved.task.of_done spent
          rw [moved.dispatcher, state, List.append_nil]
          exact ⟨spent, moved.told, dispatching⟩
      | dispatcher moved request toldNow =>
          rw [request]
          exact ⟨spent, toldNow, dispatching.move others moved⟩
      | begins handled idle begun request state toldNow =>
          cases handled
          rw [idle] at dispatching
          rw [request, begun, state, toldNow]
          refine ⟨spent, (List.append_nil _).symm, ?_⟩
          exact .amid dispatching.notifies (Job.comes_ready _ _)

section Serving

variable {backend : Backend τ} {m m' : Machine SessionState SessionEvent} {t t' : τ} {fuel : Nat}

theorem notifies_notify (others : EvalOp.OnlyCalls possible) (within : backend.Within possible)
    {events : List NativeEvent} (idle : m.dispatcher = .finished ())
    (notified : m.notify backend (some handle) fuel events t = (m', t'))
    (rested : m'.dispatcher = .finished ()) :
    ∃ seen : Trace SessionEvent, Notifies possible m.state seen m'.state ∧
      m'.emitted = m.emitted ++ seen.told ∧ backend.Answers t seen.called t' := by
  obtain ⟨rfl, rfl⟩ := Prod.mk.inj notified
  let start : Run SessionState SessionEvent Unit := ⟨m.raise events, .ready (.done ()), none⟩
  have idleAgain : (start.toRest backend (some handle) fuel t).1.machine.dispatcher =
      .finished () := rested
  obtain ⟨seen, passes, answers⟩ := Run.passes_toRest others within fuel start t
  obtain ⟨-, told, dispatching⟩ := dispatching_passes others passes (.inl rfl) idle
  rw [idleAgain] at dispatching
  exact ⟨seen, dispatching.notifies, told, answers⟩

/-- With the dispatcher held back, a request is a turn. -/
theorem happens_request (others : EvalOp.OnlyCalls possible) (within : backend.Within possible)
    {input : Input} {answer : Except EngineError Json} (idle : m.dispatcher = .finished ())
    (answered : m.request backend none fuel input.task t = (some answer, m', t')) :
    m'.dispatcher = .finished () ∧
      ∃ es, (⟨input, m.state, es, answer, m'.state⟩ : Turn).Happens possible ∧
        m'.emitted = m.emitted ++ (seenOf es).told ∧ backend.Answers t (seenOf es).called t' := by
  obtain ⟨result, ended⟩ := Prod.mk.inj answered
  obtain ⟨rfl, rfl⟩ := Prod.mk.inj ended
  let start : Run SessionState SessionEvent (Except EngineError Json) :=
    ⟨m, .ready input.task, none⟩
  have finished : (start.toRest backend none fuel t).1.request = .finished answer :=
    Task.eq_finished_of_result? result
  obtain ⟨seen, passes, answers⟩ := Run.passes_toRest others within fuel start t
  obtain ⟨rested, told, comes⟩ := passes.comes others rfl idle
  rw [finished] at comes
  obtain ⟨es, played, allowed, rfl⟩ := comes.plays
  exact ⟨rested, es, ⟨played, allowed⟩, told, answers⟩

/-- A machine is given one thing at a time, and gets done with each. The inputs are the requests. -/
inductive Serves (backend : Backend τ) :
    Machine SessionState SessionEvent → τ → List Input → Machine SessionState SessionEvent → τ →
      Prop where
  | rest (m : Machine SessionState SessionEvent) (t : τ) : Serves backend m t [] m t
  | request {m m' m'' : Machine SessionState SessionEvent} {t t' t'' : τ} {fuel : Nat}
      {input : Input} {inputs : List Input} {answer : Except EngineError Json} :
      input.isRequest → m.request backend none fuel input.task t = (some answer, m', t') →
      Serves backend m' t' inputs m'' t'' → Serves backend m t (input :: inputs) m'' t''
  | notify {m m' m'' : Machine SessionState SessionEvent} {t t' t'' : τ} {fuel : Nat}
      {events : List NativeEvent} {inputs : List Input} :
      m.notify backend (some handle) fuel events t = (m', t') → m'.dispatcher = .finished () →
      Serves backend m' t' inputs m'' t'' → Serves backend m t inputs m'' t''

/-- Whatever a machine does that is given one thing at a time is a run. -/
theorem Serves.runs (others : EvalOp.OnlyCalls possible) (within : backend.Within possible)
    {inputs : List Input} (serves : Serves backend m t inputs m' t')
    (idle : m.dispatcher = .finished ()) :
    ∃ ts, Runs possible m.state ts m'.state ∧ requestsIn ts = inputs ∧
      m'.emitted = m.emitted ++ (seenIn ts).told ∧ backend.Answers t (seenIn ts).called t' := by
  induction serves with
  | rest m t => exact ⟨[], .nil _, rfl, (List.append_nil _).symm, .nil t⟩
  | @request m m₁ m' t t₁ t' fuel input inputs answer isRequest answered _ inductionHypothesis =>
      obtain ⟨rested, es, happens, toldFirst, first⟩ := happens_request others within idle answered
      obtain ⟨ts, run, asked, told, rest⟩ := inductionHypothesis rested
      refine ⟨_ :: ts, .cons happens run, ?_, ?_, ?_⟩
      · exact (List.filter_cons_of_pos isRequest).trans (congrArg (input :: ·) asked)
      · rw [told, toldFirst, List.append_assoc, ← Trace.told_append]
        rfl
      · have answers := first.append rest
        rw [← Trace.called_append] at answers
        exact answers
  | @notify m m₁ m' t t₁ t' fuel events inputs notified rested _ inductionHypothesis =>
      obtain ⟨seen, notifies, toldFirst, first⟩ :=
        notifies_notify others within idle notified rested
      obtain ⟨before, runBefore, unasked, rfl⟩ := notifies
      obtain ⟨ts, run, asked, told, rest⟩ := inductionHypothesis rested
      refine ⟨before ++ ts, runs_append_iff.mpr ⟨m₁.state, runBefore, run⟩, ?_, ?_, ?_⟩
      · rw [requestsIn_append, requestsIn_notified unasked, List.nil_append, asked]
      · rw [told, toldFirst, List.append_assoc, seenIn_append, Trace.told_append]
      · rw [seenIn_append, Trace.called_append]
        exact first.append rest

/-- If the target never fails a call, then no call fails in the run. -/
theorem Serves.runs_start (within : backend.Within EvalOp.Succeeds) {config : SessionConfig}
    {inputs : List Input} (serves : Serves backend (.start (.start config)) t inputs m' t') :
    ∃ ts, Runs EvalOp.Succeeds (.start config) ts m'.state ∧ requestsIn ts = inputs ∧
      m'.emitted = (seenIn ts).told ∧ backend.Answers t (seenIn ts).called t' :=
  serves.runs EvalOp.onlyCalls_succeeds within rfl

end Serving

end Session

end ManagedDebugger
