import ManagedDebugger.Proofs.Session.Evaluations
import ManagedDebugger.Proofs.Session.HandleHistory
import ManagedDebugger.Proofs.Session.KeptCurrent
import ManagedDebugger.Proofs.Session.Resumption
import ManagedDebugger.Proofs.Step.Armed

/-!
# Requests to go on that fail

A request to continue or to step asks the target to go on as its last call. If it fails before, the
session is as it was. If that call fails, it is too late: the numbers of the stop are gone, the
session takes the target to be running, and a step that was started is in flight.
-/

namespace ManagedDebugger

/-- What is armed in the target by some exchanges. -/
def leftArmed (es : List (Exchange evalEffect)) : Ledger := Ledger.empty.after es

namespace Step

variable {thread : ThreadId} {st' : StepState} {ms : List (Exchange evalEffect)} {ok : Bool}

/-- A start that succeeds has armed just what the step knows of. -/
theorem Starts.accepted (starts : Starts thread ms true st') :
    st' ≠ .idle ∧ leftArmed ms = st'.armed := by
  cases starts with
  | plain kind asks =>
      cases asks with
      | accepted mode => exact ⟨nofun, rfl⟩
  | created kind method offset resumeOffset b asks =>
      cases asks with
      | accepted mode => exact ⟨nofun, rfl⟩

/-- A start that fails leaves a breakpoint if it had set one, and nothing else. -/
theorem Starts.refused (starts : Starts thread ms false st') :
    st' = .idle ∧ (leftArmed ms).outstanding = [] ∧
      ((leftArmed ms).active = [] ↔ ms.any Exchange.creates = false) := by
  cases starts with
  | unread => simp [leftArmed, Ledger.empty]
  | plain kind asks =>
      cases asks with
      | refused mode e => simp [leftArmed, Ledger.empty, Ledger.note, Exchange.creates]
  | notCreated method offset e =>
      simp [leftArmed, Ledger.empty, Ledger.note, Exchange.creates]
  | created kind method offset resumeOffset b asks =>
      cases asks with
      | refused mode e => simp [leftArmed, Ledger.empty, Ledger.note, Exchange.creates]

end Step

namespace Session

open Job

variable {possible : Exchange evalEffect → Prop}

/-- The front end asks for the target to go on. -/
def Input.GoesOn : Input → Prop
  | asked .continue_ | asked (.step ..) => True
  | _ => False

theorem Input.GoesOn.cases {input : Input} (goesOn : input.GoesOn) :
    input = .asked .continue_ ∨ ∃ kind thread, input = .asked (.step kind thread) := by
  cases input with
  | asked request =>
      cases request with
      | continue_ => exact .inl rfl
      | step kind thread => exact .inr ⟨kind, thread, rfl⟩
      | _ => exact goesOn.elim
  | _ => exact goesOn.elim

/-- The state after a stop has been given up, with a step in flight. -/
def released (s : SessionState) (step : StepState) : SessionState :=
  { s with
    handles := s.handles.clear
    step
    process := { s.process with status := .running } }

/-- What a request to go on has started by the time that it asks the target to go on: a step has
armed what it knows of, and nothing else has armed anything. -/
def Starting (input : Input) (armed : Ledger) (st st' : StepState) : Prop :=
  match input with
  | .asked (.step ..) => st = .idle ∧ st' ≠ .idle ∧ armed = st'.armed
  | _ => st' = st ∧ armed = .empty

/-- What a request to go on leaves when it fails. -/
inductive Fails (input : Input) (es : Transcript) (s s' : SessionState) : Prop where
  /-- The target was not asked to go on. -/
  | early (silent : emitted es = []) (resumes : Resumes 0 (evalOps es)) (same : s' = s)
      (outstanding : (leftArmed (evaluations es)).outstanding = [])
      (active : (leftArmed (evaluations es)).active = [] ↔
        (evaluations es).any Exchange.creates = false)
  /-- The target was asked, and did not. -/
  | late (silent : emitted es = []) (resumes : Resumes 1 (evalOps es))
      (refused : Transcript.Refuses es .continueProcess) (state : s' = released s s'.step)
      (started : Starting input (leftArmed (evaluations es)) s.step s'.step)

theorem plays_requireProcess (s : SessionState) :
    requireProcess.run.Ensures (alone possible) s fun es s' _ =>
      emitted es = [] ∧ evaluations es = [] ∧ s' = s := by
  refine Work.ofJob_bind (P := fun es s' _ => emitted es = [] ∧ evaluations es = [] ∧ s' = s)
    (update_bind (Program.ensures_done_iff.mpr ⟨rfl, rfl, rfl⟩)) ?_
  rintro es _ live ⟨silent, quiet, rfl⟩
  cases live with
  | true => exact Program.ensures_done_iff.mpr (by simp [silent, quiet])
  | false => exact Program.ensures_done_iff.mpr (by simp [silent, quiet])

/-- Numbers go first, then the run state, and the target is asked last. -/
theorem plays_resume (s : SessionState) :
    resume.run.Ensures (alone possible) s fun es s' r =>
      ∃ reply, evaluations es = [⟨.native .continueProcess, reply⟩] ∧ s' = released s s.step ∧
        ∀ e, r = .error e → emitted es = [] ∧ Transcript.Refuses es .continueProcess := by
  refine Work.ofJob_bind (P := fun es s' _ => emitted es = [] ∧ evaluations es = [] ∧
    s' = { s with handles := s.handles.clear }) (ensures_update ⟨rfl, rfl, rfl⟩) ?_
  rintro first _ _ ⟨silent, quiet, rfl⟩
  refine Work.ofJob_bind (P := fun es s' _ => emitted es = [] ∧ evaluations es = [] ∧
    s' = released s s.step) (ensures_update ⟨rfl, rfl, rfl⟩) ?_
  rintro second _ _ ⟨silent', quiet', rfl⟩
  apply native_bind
  · intro answer _
    refine Work.ensures_ofJob (ensures_emit ⟨.ok answer, ?_, rfl, nofun⟩)
    simp [quiet, quiet']
  · intro e _
    refine ⟨.error e, by simp [quiet, quiet'], rfl, fun _ _ => ⟨?_, e, by simp⟩⟩
    rw [emitted_append, silent, emitted_append, silent']
    rfl

theorem Fails.ofNothing {input : Input} {es : Transcript} {s : SessionState}
    (silent : emitted es = []) (quiet : evaluations es = []) : Fails input es s s := by
  have ops : evalOps es = [] := by simp [evalOps_eq, quiet]
  apply Fails.early silent
  · rw [ops]
    exact .nil
  · rfl
  · rw [quiet]
    rfl
  · simp [quiet, leftArmed, Ledger.empty]

/-- Looking whether there is a process is of no account. -/
theorem Fails.after {input : Input} {first second : Transcript} {s s' : SessionState}
    (fails : Fails input second s s') (silent : emitted first = [])
    (quiet : evaluations first = []) : Fails input (first ++ second) s s' := by
  have told : emitted (first ++ second) = emitted second := by simp [silent]
  have evaluated : evaluations (first ++ second) = evaluations second := by simp [quiet]
  have ops : evalOps (first ++ second) = evalOps second := by
    rw [evalOps_eq, evaluated, evalOps_eq]
  cases fails with
  | early nothing resumes same outstanding active =>
      rw [← told] at nothing
      rw [← ops] at resumes
      rw [← evaluated] at outstanding active
      exact .early nothing resumes same outstanding active
  | late nothing resumes refused state started =>
      rw [← told] at nothing
      rw [← ops] at resumes
      rw [← evaluated] at started
      obtain ⟨e, member⟩ := refused
      exact .late nothing resumes ⟨e, List.mem_append_right first member⟩ state started

/-- The target refuses to go on after something else has been done. -/
theorem Fails.ofResume {input : Input} {first second : Transcript} {s s' : SessionState}
    {reply : Except NativeError Unit} (silent : emitted first = [])
    (resumes : Resumes 0 (evalOps first)) (silent' : emitted second = [])
    (asked : evaluations second = [⟨.native .continueProcess, reply⟩])
    (refused : Transcript.Refuses second .continueProcess) (state : s' = released s s'.step)
    (started : Starting input (leftArmed (evaluations first)) s.step s'.step) :
    Fails input (first ++ second) s s' := by
  have left : leftArmed (evaluations (first ++ second)) = leftArmed (evaluations first) := by
    rw [evaluations_append, asked, leftArmed, Ledger.after_append]
    rfl
  apply Fails.late
  · simp [silent, silent']
  · rw [evalOps_append, evalOps_eq second, asked]
    exact resumes.append resumes_continue
  · obtain ⟨e, member⟩ := refused
    exact ⟨e, List.mem_append_right first member⟩
  · exact state
  · rw [left]
    exact started

theorem fails_continue (s : SessionState) :
    continue_.run.Ensures (alone possible) s fun es s' r =>
      ∀ e, r = .error e → Fails (.asked .continue_) es s s' := by
  refine Program.Ensures.run_bind (plays_requireProcess s) ?_ ?_
  · rintro first _ _ ⟨silent, quiet, rfl⟩
    refine (plays_resume _).mono ?_
    rintro second s' r ⟨reply, asked, rfl, refused⟩ e failed
    obtain ⟨silent', refused⟩ := refused e failed
    apply Fails.ofResume silent _ silent' asked refused rfl
    · rw [quiet]
      exact ⟨rfl, rfl⟩
    · rw [evalOps_eq, quiet]
      exact .nil
  · rintro first _ e ⟨silent, quiet, rfl⟩ _ _
    exact .ofNothing silent quiet

/-- A start of the step controller in a session: it succeeds, or the session stays as it is. -/
theorem fails_start (thread : ThreadId) (kind : StepKind) (s : SessionState) :
    (onStep fun ctx => Step.start ctx thread kind).Ensures (alone possible) s fun es s' r =>
      (r.isOk = true → emitted es = [] ∧ Resumes 0 (evalOps es) ∧
        s' = { s with step := s'.step } ∧
        Starting (.asked (.step kind thread)) (leftArmed (evaluations es)) s.step s'.step) ∧
      (r.isOk = false → Fails (.asked (.step kind thread)) es s s') := by
  refine (plays_onStep _ s).mono ?_
  rintro es s' r ⟨silent, state, played, -⟩
  have resumes : Resumes 0 (evalOps es) := by
    rw [evalOps_eq]
    exact Step.steady_start _ thread kind s.step _ _ played
  have exits : Step.Exits (fun _ => True) (.start thread kind) s.step (marks (evaluations es))
      r.isOk s'.step := Step.leaves_start _ thread kind _ _ played fun _ _ => trivial
  have left : leftArmed (marks (evaluations es)) = leftArmed (evaluations es) :=
    Ledger.after_marks _ _
  have created : (marks (evaluations es)).any Exchange.creates =
      (evaluations es).any Exchange.creates :=
    any_marks (fun _ => Exchange.arms_of_creates) _
  by_cases idle : s.step = .idle
  · rw [Step.Exits, if_pos idle] at exits
    constructor
    · intro ok
      rw [ok] at exits
      obtain ⟨started, armed⟩ := Step.Starts.accepted exits
      exact ⟨silent, resumes, state, idle, started, left ▸ armed⟩
    · intro failed
      rw [failed] at exits
      obtain ⟨same, outstanding, active⟩ := Step.Starts.refused exits
      rw [left, created] at active
      rw [left] at outstanding
      exact .early silent resumes (by rw [state, same, ← idle]) outstanding active
  · rw [Step.Exits, if_neg idle] at exits
    obtain ⟨nothing, failed, same⟩ := exits
    rw [failed]
    refine ⟨fun ok => absurd ok Bool.false_ne_true, fun _ => ?_⟩
    apply Fails.early silent resumes (by rw [state, same])
    · rw [← left, nothing]
      rfl
    · rw [← left, ← created, nothing]
      simp [leftArmed, Ledger.empty]

theorem fails_step (thread : ThreadId) (kind : StepKind) (s : SessionState) :
    (step thread kind).run.Ensures (alone possible) s fun es s' r =>
      ∀ e, r = .error e → Fails (.asked (.step kind thread)) es s s' := by
  refine Program.Ensures.run_bind (plays_requireProcess s) ?_ ?_
  · rintro first before _ ⟨silent, quiet, rfl⟩
    refine Program.Ensures.run_bind (p := ExceptT.mk (onStep fun ctx => Step.start ctx thread kind))
      (fails_start thread kind _) ?_ ?_
    · rintro second s₁ _ ⟨started, -⟩
      obtain ⟨silent', resumes, state, starting⟩ := started rfl
      refine (plays_resume s₁).mono ?_
      rintro third s' r ⟨reply, asked, rfl, refused⟩ e failed
      obtain ⟨silent'', refused⟩ := refused e failed
      have same : released s₁ s₁.step = released before s₁.step := by
        rw [state]
        rfl
      apply Fails.after _ silent quiet
      exact .ofResume silent' resumes silent'' asked refused same starting
    · rintro second s' e ⟨-, fails⟩ _ _
      exact (fails rfl).after silent quiet
  · rintro first _ e ⟨silent, quiet, rfl⟩ _ _
    exact .ofNothing silent quiet

/-- A request that is answered by its success, or by its error. -/
theorem fails_answered {p : SessionWork Unit} {input : Input} {s : SessionState}
    (fails : p.run.Ensures (alone possible) s fun es s' r =>
      ∀ e, r = .error e → Fails input es s s') :
    (do p; return doneJson : SessionWork Json).run.Ensures (alone possible) s fun es s' r =>
      ∀ e, r = .error e → Fails input es s s' := by
  refine Program.Ensures.run_bind fails ?_ ?_
  · exact fun es s' _ _ => Program.ensures_done_iff.mpr nofun
  · exact fun es s' e holds _ _ => holds e rfl

/-- The numbers of a stop survive it only if there are none. -/
theorem lookups_clear_iff {t : HandleTable} :
    ((∀ id, t.clear.frame? id = t.frame? id) ∧ ∀ id, t.clear.reference? id = t.reference? id) ↔
      t.isEmpty = true := by
  rw [HandleTable.isEmpty_iff]
  constructor
  · rintro ⟨frame, reference⟩ id thing found
    apply t.not_resolves_clear id thing
    cases thing with
    | frame f => exact (frame id).trans found
    | reference r => exact (reference id).trans found
  · intro unknown
    constructor
    · intro id
      exact (Option.eq_none_iff_forall_ne_some.mpr fun f => unknown id (.frame f)).symm
    · intro id
      exact (Option.eq_none_iff_forall_ne_some.mpr fun r => unknown id (.reference r)).symm

namespace Turn

variable {t : Turn}

/-- The run state, the step in flight and the meaning of every number are as before. -/
structure KeepsStop (t : Turn) : Prop where
  status : t.after.process.status = t.before.process.status
  step : t.after.step = t.before.step
  frame : ∀ id, t.after.handles.frame? id = t.before.handles.frame? id
  reference : ∀ id, t.after.handles.reference? id = t.before.handles.reference? id

theorem Happens.fails (happens : t.Happens possible) (goesOn : t.input.GoesOn) {e : EngineError}
    (failed : t.answer = .error e) : Fails t.input t.transcript t.before t.after := by
  rcases goesOn.cases with continues | ⟨kind, thread, steps⟩
  · rw [continues]
    exact happens.ensured_of continues (fails_answered (fails_continue t.before)) e failed
  · rw [steps]
    exact happens.ensured_of steps (fails_answered (fails_step thread kind t.before)) e failed

/-- A stop that was released is as before only if there was none, and no step was started. -/
theorem keepsStop_released_iff (goesOn : t.input.GoesOn)
    (state : t.after = released t.before t.after.step) {armed : Ledger}
    (started : Starting t.input armed t.before.step t.after.step) :
    t.KeepsStop ↔ t.input = .asked .continue_ ∧ t.before.process.status = .running ∧
      t.before.handles.isEmpty = true := by
  have status : t.after.process.status = .running := by rw [state, released]
  have handles : t.after.handles = t.before.handles.clear := by rw [state, released]
  rw [← lookups_clear_iff, ← handles]
  constructor
  · intro kept
    refine ⟨?_, kept.status.symm.trans status, kept.frame, kept.reference⟩
    rcases goesOn.cases with continues | ⟨kind, thread, steps⟩
    · exact continues
    · rw [steps] at started
      obtain ⟨idle, stepping, -⟩ := started
      exact absurd (kept.step.trans idle) stepping
  · rintro ⟨continues, running, frame, reference⟩
    rw [continues] at started
    exact ⟨status.trans running.symm, started.1, frame, reference⟩

/-- What becomes of a request to go on that fails. -/
structure FailedToGoOn (t : Turn) : Prop where
  /-- The front end is told of nothing. -/
  silent : emitted t.transcript = []
  kept : t.KeepsStop ↔ t.ownResumes = 0 ∨ t.input = .asked .continue_ ∧
    t.before.process.status = .running ∧ t.before.handles.isEmpty = true
  /-- A request that fails before the target is asked to go on changes nothing, and leaves nothing
  in the target but a breakpoint that a step had set already. -/
  early : t.ownResumes = 0 → t.after = t.before ∧
    (leftArmed (evaluations t.transcript)).outstanding = [] ∧
    ((leftArmed (evaluations t.transcript)).active = [] ↔
      (evaluations t.transcript).any Exchange.creates = false)
  /-- Otherwise it is the last call that fails, and nothing is undone. -/
  late : t.ownResumes ≠ 0 → t.transcript.Refuses .continueProcess ∧
    t.after = released t.before t.after.step ∧
    Starting t.input (leftArmed (evaluations t.transcript)) t.before.step t.after.step

/-- A request to go on that fails leaves the stop as it was exactly if the target was not asked, or
there was no stop to lose. -/
theorem failedToGoOn (happens : t.Happens possible) (goesOn : t.input.GoesOn) {e : EngineError}
    (failed : t.answer = .error e) : t.FailedToGoOn := by
  cases happens.fails goesOn failed with
  | early silent resumes same outstanding active =>
      have none : t.ownResumes = 0 := resumes.count
      have kept : t.KeepsStop := by
        constructor <;> simp [same]
      exact {
        silent := silent
        kept := iff_of_true kept (.inl none)
        early := fun _ => ⟨same, outstanding, active⟩
        late := fun other => absurd none other }
  | late silent resumes refused state started =>
      have one : t.ownResumes = 1 := resumes.count
      have asked : t.ownResumes ≠ 0 := by omega
      refine ⟨silent, ?_, fun none => absurd none asked, fun _ => ⟨refused, state, started⟩⟩
      rw [or_iff_right asked]
      exact keepsStop_released_iff goesOn state started

end Turn

section Replies

/-! A target that replies as a table says. -/

variable (replies : (op : EvalOp) → op.Reply)

def respondBy (s : SessionState) :
    (op : WorkOp SessionState SessionEvent) → op.Reply × SessionState
  | .eval op => (replies op, s)
  | .update f => (s, f s)
  | .emit _ | .acquire _ | .release _ => ((), s)

def Input.turnBy (input : Input) (s : SessionState) : Turn :=
  let ended := input.task.simulate (respondBy replies) s
  ⟨input, s, ended.1, ended.2.2, ended.2.1⟩

theorem happens_turnBy (input : Input) (s : SessionState) :
    (input.turnBy replies s).Happens fun _ => True where
  plays := Program.plays_simulate (E := workEffect SessionState SessionEvent) (respondBy replies)
    input.task s
  allowed := by
    refine Program.allows_simulate (E := workEffect SessionState SessionEvent) ?_ input.task s
    intro s op
    cases op with
    | eval op => exact ⟨trivial, rfl⟩
    | update f => exact ⟨rfl, rfl⟩
    | emit event => rfl
    | acquire lock => rfl
    | release lock => rfl

end Replies

section Halted

/-- The target of one frame, which does not go on. -/
def halted : (op : EvalOp) → op.Reply
  | .native .continueProcess => .error (.protocol "no")
  | op => replyOf oneFrame op

/-- Thread 1 stops by itself, and the front end looks at its frame. -/
def brokenOff : Turn := (Input.notified (.userBreak 1)).turnBy halted (.start {})

def lookedAt : Turn := (Input.asked (.stackTrace 1 0 0)).turnBy halted brokenOff.after

def haltedStep : Turn := (Input.asked (.step .over 1)).turnBy halted lookedAt.after

/-- The step is in flight, although the front end is told that it failed. -/
theorem failedToGoOn_haltedStep :
    haltedStep.Happens (fun _ => True) ∧ haltedStep.input.GoesOn ∧
      haltedStep.answer = .error (.native (.protocol "no")) ∧ haltedStep.FailedToGoOn ∧
      haltedStep.after.step = .stepping 1 .out :=
  have happens : haltedStep.Happens fun _ => True := happens_turnBy halted _ _
  have answered : haltedStep.answer = .error (.native (.protocol "no")) := rfl
  ⟨happens, trivial, answered, Turn.failedToGoOn happens trivial answered, rfl⟩

def haltedContinue : Turn := (Input.asked .continue_).turnBy halted lookedAt.after

/-- The number of the frame is gone, and the session takes the target to be running. -/
theorem not_keepsStop_haltedContinue :
    Runs (fun _ => True) (.start {}) [brokenOff, lookedAt, haltedContinue] haltedContinue.after ∧
      haltedContinue.input.GoesOn ∧
      haltedContinue.answer = .error (.native (.protocol "no")) ∧
      haltedContinue.before.process.status = .stopped 1 ∧
      haltedContinue.after.process.status = .running ∧
      haltedContinue.before.handles.frame? 1 = some ⟨1, 0⟩ ∧
      haltedContinue.after.handles.frame? 1 = none ∧ ¬ haltedContinue.KeepsStop := by
  refine ⟨?_, trivial, rfl, rfl, rfl, rfl, rfl, fun kept => ?_⟩
  · apply Runs.cons (happens_turnBy halted _ _)
    apply Runs.cons (happens_turnBy halted _ _)
    exact .cons (happens_turnBy halted _ _) (.nil _)
  · have found := kept.frame 1
    cases found

end Halted

end Session

end ManagedDebugger
