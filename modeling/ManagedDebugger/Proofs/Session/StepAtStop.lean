import ManagedDebugger.Proofs.Session.Handling

/-!
# The step in flight at a stop

There is one step at a time, and a request for another one is refused. A stop ends the step in
flight and takes back what it has armed in the target, however the session came to stop, but for the
two notifications that never reach the step controller or are none of its own: the hit of the
breakpoint on the entry point, and the end of a native step of another thread. After those the step
is still in flight.
-/

namespace ManagedDebugger

open Job

variable {possible : Exchange evalEffect → Prop}

namespace Session

/-- The task starts no step. -/
def StaysIdle {α : Type} (possible : Exchange evalEffect → Prop) (p : SessionJob α) : Prop :=
  ∀ s, p.Ensures (alone possible) s fun _ s' _ => s.step = .idle → s'.step = .idle

namespace StaysIdle

variable {α β : Type}

theorem ofLeaves {p : SessionJob α} (leaves : Unobtrusive possible p) : StaysIdle possible p :=
  fun s => (leaves s).mono fun _ _ _ left => left.step.trans

theorem bind {p : SessionJob α} {f : α → SessionJob β} (first : StaysIdle possible p)
    (second : ∀ a, StaysIdle possible (f a)) : StaysIdle possible (p >>= f) :=
  fun s => (first s).bind fun _ s' a left =>
    (second a s').mono fun _ _ _ right idle => right (left idle)

theorem run_bind {p : SessionWork α} {f : α → SessionWork β} (first : StaysIdle possible p.run)
    (second : ∀ a, StaysIdle possible (f a).run) : StaysIdle possible (p >>= f).run := by
  refine first.bind fun result => ?_
  cases result with
  | ok a => exact second a
  | error e => exact .ofLeaves (.pure _)

theorem ofJob {p : SessionJob α} (stays : StaysIdle possible p) :
    StaysIdle possible (Work.ofJob p).run :=
  stays.bind fun _ => .ofLeaves (.pure _)

theorem call (c : NativeCall) : StaysIdle possible (Work.native c : SessionWork c.Answer).run := by
  intro s
  refine Program.ensures_perform_iff.mpr ?_
  intro reply s' holds
  obtain ⟨-, rfl⟩ := holds
  exact Program.ensures_done_iff.mpr id

theorem clearHandles : StaysIdle possible clearHandles := fun _ => ensures_update id

theorem cancelStep : StaysIdle possible cancelStep :=
  fun s => (ensures_cancelStep s).mono fun _ _ _ cancelled _ => cancelled.2.1

theorem resume : StaysIdle possible resume.run := by
  refine .run_bind (.ofJob clearHandles) fun _ => ?_
  refine .run_bind (.ofJob (.ofLeaves (unobtrusive_setStatus .running))) fun _ => ?_
  refine .run_bind (.call .continueProcess) fun _ => ?_
  exact .ofJob (.ofLeaves (.emit fun _ _ => nofun))

theorem continue_ : StaysIdle possible continue_.run :=
  .run_bind (.ofLeaves unobtrusive_requireProcess) fun _ => resume

theorem terminate : StaysIdle possible terminate.run := by
  refine .run_bind (.ofLeaves unobtrusive_requireProcess) fun _ => ?_
  exact .run_bind (.ofJob cancelStep) fun _ => .call .terminate

theorem disconnect (kill : Bool) : StaysIdle possible (disconnect kill) := by
  refine .bind (.ofLeaves unobtrusive_isLive) fun live => ?_
  cases live with
  | false => exact .ofLeaves (.pure _)
  | true =>
      refine .bind cancelStep fun _ => .bind clearHandles fun _ => ?_
      refine .bind (.ofLeaves (unobtrusive_native (.ask ?_))) fun _ => .ofLeaves (.pure _)
      cases kill <;> nofun

end StaysIdle

/-! The request for a step, when calls succeed. -/

theorem ensures_requireProcess (s : SessionState) :
    requireProcess.run.Ensures (alone possible) s fun _ s' r =>
      s'.step = s.step ∧ ∀ e, r = .error e → e = .noProcess := by
  refine Work.ofJob_bind (unobtrusive_isLive s) ?_
  intro es s' live leaves
  cases live with
  | true => exact Program.ensures_done_iff.mpr ⟨leaves.step, fun _ => nofun⟩
  | false =>
      refine Program.ensures_done_iff.mpr ⟨leaves.step, ?_⟩
      intro _ failed
      cases failed
      rfl

/-- Calls that succeed go on. -/
theorem succeeding_bind {β : Type} {c : NativeCall} {f : c.Answer → SessionWork β}
    {s : SessionState} {Q : Transcript → SessionState → Except EngineError β → Prop}
    (next : ∀ answer, (f answer).run.Ensures (alone EvalOp.Succeeds) s fun more =>
      Q (⟨.eval (.native c), .ok answer⟩ :: more)) :
    (Work.native c >>= f).run.Ensures (alone EvalOp.Succeeds) s Q := by
  refine Program.ensures_perform_iff.mpr ?_
  intro reply s' holds
  obtain ⟨⟨answer, rfl⟩, rfl⟩ := holds
  exact next answer

theorem ensures_resume (s : SessionState) :
    resume.run.Ensures (alone EvalOp.Succeeds) s fun _ _ r => r = .ok () := by
  refine Work.ofJob_bind (P := fun _ _ _ => True) (fun _ _ _ _ _ => trivial) fun _ s _ _ => ?_
  refine Work.ofJob_bind (P := fun _ _ _ => True) (fun _ _ _ _ _ => trivial) fun _ s _ _ => ?_
  refine succeeding_bind fun _ => ?_
  exact Work.ensures_ofJob (ensures_emit rfl)

/-- What a request for a step is answered, and when it changes nothing. -/
structure StepAnswer (s s' : SessionState) (answer : Except EngineError Unit) : Prop where
  refused : ∀ thread, s.step.thread? = some thread →
    answer = .error .noProcess ∨ answer = .error (.stepInProgress thread)
  idle : s.step = .idle → ∀ e, answer = .error e → e = .noProcess ∧ s'.step = .idle

theorem ensures_step (thread : ThreadId) (kind : StepKind) (s : SessionState) :
    (step thread kind).run.Ensures (alone EvalOp.Succeeds) s fun _ s' r => StepAnswer s s' r := by
  refine Program.Ensures.run_bind (ensures_requireProcess s) ?_ ?_
  · intro es s₁ _ holds
    obtain ⟨same, -⟩ := holds
    refine onStep_bind (fun ctx => Step.steady_start ctx thread kind)
      (fun ctx => Step.ensures_start ctx thread kind) ?_ ?_
    · intro es' s₂ _ _ holds
      obtain ⟨flight, -⟩ := holds
      refine (ensures_resume s₂).mono ?_
      intro _ s₃ _ same
      subst same
      refine ⟨fun active stepping => ?_, fun _ _ => nofun⟩
      rw [← same] at stepping
      cases (flight active stepping).1
    · intro es' s₂ e _ holds
      obtain ⟨flight, free⟩ := holds
      constructor
      · intro active stepping
        rw [← same] at stepping
        exact .inr (flight active stepping).1
      · intro idle
        cases free (by rw [same, idle]; rfl)
  · intro es s₁ e holds
    obtain ⟨same, noProcess⟩ := holds
    obtain rfl := noProcess e rfl
    refine ⟨fun _ _ => .inl rfl, ?_⟩
    intro idle _ failed
    cases failed
    exact ⟨rfl, same.trans idle⟩

namespace Input

/-- The session can stop for the input without a word to the step controller. -/
def PassesStep (input : Input) (s : SessionState) : Prop :=
  match input with
  | notified event => event.PassesStep s
  | _ => False

def EndsStepper (input : Input) (thread : ThreadId) : Prop :=
  match input with
  | notified event => event.EndsStepper thread
  | _ => False

def IsStep : Input → Prop
  | asked (.step ..) => True
  | _ => False

end Input

/-- What a turn does about the step in flight. -/
structure Progress (input : Input) (es : Transcript) (s s' : SessionState)
    (answer : Except EngineError Json) : Prop where
  handsOver : s.step.HandsOver input.EndsStepper (evalOps es) s'.step
  passed : es.ReportsStop → input.PassesStep s → s'.step = s.step
  settled : es.ReportsStop → ¬ input.PassesStep s → s'.step = .idle
  idle : ¬ input.IsStep → s.step = .idle → s'.step = .idle
  refused : input.IsStep → ∀ thread, s.step.thread? = some thread →
    answer = .error .noProcess ∨ answer = .error (.stepInProgress thread)
  accepted : input.IsStep → s.step = .idle → ∀ e, answer = .error e →
    e = .noProcess ∧ s'.step = .idle

namespace Progress

variable {input : Input} {es : Transcript} {s s' : SessionState}
  {answer : Except EngineError Json}

theorem ofSame (silent : ¬ es.ReportsStop) (same : s'.step = s.step) (other : ¬ input.IsStep) :
    Progress input es s s' answer where
  handsOver := same ▸ .refl
  passed := fun _ _ => same
  settled := fun reported => absurd reported silent
  idle := fun _ => same.trans
  refused := fun holds => absurd holds other
  accepted := fun holds => absurd holds other

theorem ofHandles {event : NativeEvent} (handles : Handles event es s s') :
    Progress (.notified event) es s s' answer where
  handsOver := handles.handsOver
  passed := handles.passed
  settled := handles.settled
  idle := fun _ before => by
    by_cases reported : es.ReportsStop
    · by_cases passes : event.PassesStep s
      · exact (handles.passed reported passes).trans before
      · exact handles.settled reported passes
    · exact handles.idle reported before
  refused := nofun
  accepted := nofun

theorem ofPauses (pauses : Pauses es s s') : Progress (.asked .pause) es s s' answer where
  handsOver := pauses.handsOver
  passed := nofun
  settled := fun reported _ => pauses.ended reported
  idle := fun _ => pauses.idle
  refused := nofun
  accepted := nofun

theorem ofReleases (releases : Releases es s s') (idle : s.step = .idle → s'.step = .idle)
    (other : ¬ input.IsStep) : Progress input es s s' answer where
  handsOver := releases.handsOver.mono fun _ => False.elim
  passed := fun reported => absurd reported releases.silent
  settled := fun reported => absurd reported releases.silent
  idle := fun _ => idle
  refused := fun holds => absurd holds other
  accepted := fun holds => absurd holds other

theorem ofStep {kind : StepKind} {thread : ThreadId} (releases : Releases es s s')
    (refused : ∀ thread, s.step.thread? = some thread →
      answer = .error .noProcess ∨ answer = .error (.stepInProgress thread))
    (accepted : s.step = .idle → ∀ e, answer = .error e → e = .noProcess ∧ s'.step = .idle) :
    Progress (.asked (.step kind thread)) es s s' answer where
  handsOver := releases.handsOver.mono fun _ => False.elim
  passed := fun reported => absurd reported releases.silent
  settled := fun reported => absurd reported releases.silent
  idle := fun other => absurd trivial other
  refused := fun _ => refused
  accepted := fun _ => accepted

end Progress

theorem progress_ofUnobtrusive {p : SessionJob (Except EngineError Json)} {input : Input}
    (leaves : Unobtrusive possible p) (other : ¬ input.IsStep) (s : SessionState) :
    p.Ensures (alone possible) s fun es s' r => Progress input es s s' r :=
  (leaves s).mono fun _ _ _ leaves => .ofSame leaves.silent leaves.step other

theorem progress_ofReleasing {p : SessionJob (Except EngineError Json)} {input : Input}
    (releasing : Releasing possible p) (stays : StaysIdle possible p) (other : ¬ input.IsStep)
    (s : SessionState) : p.Ensures (alone possible) s fun es s' r => Progress input es s s' r :=
  ((releasing s).and (stays s)).mono fun _ _ _ both => .ofReleases both.1 both.2 other

theorem progress_step (kind : StepKind) (thread : ThreadId) (s : SessionState) :
    (SessionRequest.step kind thread).work.run.Ensures (alone EvalOp.Succeeds) s fun es s' r =>
      Progress (.asked (.step kind thread)) es s s' r := by
  refine Program.Ensures.run_bind ((releasing_step thread kind s).and (ensures_step thread kind s))
    ?_ ?_
  · intro es s' _ holds
    obtain ⟨releases, answer⟩ := holds
    refine Program.ensures_done_iff.mpr ?_
    rw [List.append_nil]
    refine .ofStep releases (fun active stepping => ?_) fun _ _ => nofun
    obtain refused | refused := answer.refused active stepping
    · cases refused
    · cases refused
  · intro es s' e holds
    obtain ⟨releases, answer⟩ := holds
    refine .ofStep releases (fun active stepping => ?_) ?_
    · obtain refused | refused := answer.refused active stepping
      · cases refused
        exact .inl rfl
      · cases refused
        exact .inr rfl
    · intro idle _ failed
      cases failed
      exact answer.idle idle e rfl

theorem progress_asked (request : SessionRequest) (s : SessionState) :
    request.work.run.Ensures (alone EvalOp.Succeeds) s fun es s' r =>
      Progress (.asked request) es s s' r := by
  have answered {p : SessionWork Unit} (releasing : Releasing EvalOp.Succeeds p.run)
      (stays : StaysIdle EvalOp.Succeeds p.run) {request : SessionRequest}
      (other : ¬ (Input.asked request).IsStep) :
      (do p; return doneJson : SessionWork Json).run.Ensures (alone EvalOp.Succeeds) s
        fun es s' r => Progress (.asked request) es s s' r :=
    progress_ofReleasing (fun s => ensures_answered (releasing s))
      (fun s => ensures_answered (stays s)) other s
  have looks {request : SessionRequest} (looks : Looks request) :
      request.work.run.Ensures (alone EvalOp.Succeeds) s fun es s' r =>
        Progress (.asked request) es s s' r := by
    refine progress_ofUnobtrusive (unobtrusive_looks looks) (fun step => ?_) s
    cases request with
    | step kind thread => exact looks.elim
    | _ => exact step.elim
  cases request with
  | configurationDone =>
      refine Program.Ensures.mono (ensures_answered (ensures_configurationDone s)) ?_
      intro es s' _ holds
      obtain ⟨-, -, silent, same, -⟩ := holds
      exact .ofSame (Transcript.not_reportsStop silent) same id
  | continue_ => exact answered releasing_continue .continue_ id
  | pause =>
      refine Program.Ensures.mono (ensures_answered (ensures_pause s)) ?_
      exact fun _ _ _ pauses => .ofPauses pauses
  | step kind thread => exact progress_step kind thread s
  | terminate => exact answered releasing_terminate .terminate id
  | _ => exact looks trivial

theorem progress_task (input : Input) (s : SessionState) :
    input.task.Ensures (alone EvalOp.Succeeds) s fun es s' r => Progress input es s s' r := by
  cases input with
  | notified event =>
      refine Program.ensures_map_iff.mpr ((ensures_handle event s).mono ?_)
      exact fun es s' _ handles => .ofHandles handles
  | launch request =>
      exact progress_ofUnobtrusive (unobtrusive_map pidJson (unobtrusive_launch request)) id s
  | attach pid => exact progress_ofUnobtrusive (unobtrusive_map _ (unobtrusive_attach pid)) id s
  | asked request => exact progress_asked request s
  | disconnect kill =>
      refine progress_ofReleasing ?_ ?_ id s
      · exact (releasing_disconnect kill).bind fun _ => .ofLeaves (.pure _)
      · exact (StaysIdle.disconnect kill).bind fun _ => .ofLeaves (.pure _)

namespace Turn

variable {t : Turn}

/-- The session can stop in the turn without a word to the step controller. -/
def PassesStep (t : Turn) : Prop := t.input.PassesStep t.before

/-- A request for a step that is not refused. -/
def AcceptsStep (t : Turn) : Prop := t.input.IsStep ∧ ∃ result, t.answer = .ok result

/-- Either the turn never reaches the step controller, and then there is no step to begin with, or
it does. -/
def Settles (t : Turn) : Prop := t.PassesStep → t.before.step = .idle

theorem Happens.progress (happens : t.Happens EvalOp.Succeeds) :
    Progress t.input t.transcript t.before t.after t.answer :=
  happens.ensured (progress_task t.input t.before)

theorem Happens.idle_of_not_acceptsStep (happens : t.Happens EvalOp.Succeeds)
    (unasked : ¬ t.AcceptsStep) (idle : t.before.step = .idle) : t.after.step = .idle := by
  by_cases isStep : t.input.IsStep
  · cases answer : t.answer with
    | ok result => exact absurd ⟨isStep, result, answer⟩ unasked
    | error e => exact (happens.progress.accepted isStep idle e answer).2
  · exact happens.progress.idle isStep idle

/-- A stop leaves no step behind exactly if it reaches the step controller or there was none. -/
theorem Happens.idle_iff_settles (happens : t.Happens EvalOp.Succeeds) (stops : t.Stops) :
    t.after.step = .idle ↔ t.Settles := by
  by_cases passes : t.PassesStep
  · rw [happens.progress.passed stops passes]
    exact ⟨fun idle _ => idle, fun settles => settles passes⟩
  · exact ⟨fun _ holds => absurd holds passes, fun _ => happens.progress.settled stops passes⟩

end Turn

/-- All that some turns did in the target. -/
def turnOps (ts : List Turn) : List EvalOp := ts.flatMap fun t => evalOps t.transcript

theorem Runs.idle {ts : List Turn} {s s' : SessionState} (run : Runs EvalOp.Succeeds s ts s')
    (unasked : ∀ t ∈ ts, ¬ t.AcceptsStep) (idle : s.step = .idle) :
    (∀ t ∈ ts, t.before.step = .idle) ∧ s'.step = .idle := by
  induction run with
  | nil s => exact ⟨List.forall_mem_nil _, idle⟩
  | cons happens _ inductionHypothesis =>
      obtain ⟨here, there⟩ := List.forall_mem_cons.mp unasked
      have after := happens.idle_of_not_acceptsStep here idle
      obtain ⟨before, last⟩ := inductionHypothesis there after
      exact ⟨List.forall_mem_cons.mpr ⟨idle, before⟩, last⟩

/-- Nothing that a step has armed is forgotten, over any number of turns. -/
theorem Runs.handsOver {ts : List Turn} {s s' : SessionState} (run : Runs EvalOp.Succeeds s ts s') :
    s.step.HandsOver (fun thread => ∃ t ∈ ts, t.input.EndsStepper thread) (turnOps ts) s'.step := by
  induction run with
  | nil s => exact .refl
  | @cons t rest s happens _ inductionHypothesis =>
      have here :
          t.before.step.HandsOver (fun thread => ∃ u ∈ t :: rest, u.input.EndsStepper thread)
            (evalOps t.transcript) t.after.step :=
        happens.progress.handsOver.mono fun thread ended => ⟨t, List.mem_cons_self, ended⟩
      refine here.append (inductionHypothesis.mono fun thread ended => ?_)
      obtain ⟨u, member, ended⟩ := ended
      exact ⟨u, List.mem_cons_of_mem t member, ended⟩

/-- What becomes of steps at a stop: `front` are the turns before it, and `during` the ones after it
up to the state `s`, in which no step was accepted. -/
structure StepAtStop (front : List Turn) (stop : Turn) (during : List Turn) (s : SessionState) :
    Prop where
  idle : ((∀ t ∈ during, t.before.step = .idle) ∧ s.step = .idle) ↔ stop.Settles
  /-- The step in flight is not touched by a stop that passes it by. -/
  survives : stop.PassesStep → stop.after.step = stop.before.step
  unrefused : stop.Settles → ∀ t ∈ during, t.input.IsStep → t.answer = .error .noProcess
  refused : ∀ t ∈ during, t.input.IsStep → ∀ thread, t.before.step.thread? = some thread →
    t.answer = .error .noProcess ∨ t.answer = .error (.stepInProgress thread)
  /-- The temporary breakpoint of every step so far is switched off. -/
  disarmed : stop.Settles → ∀ earlier t later, front ++ [stop] = earlier ++ t :: later →
    ∀ b, t.before.step.breakpoint? = some b →
      .native (.setBreakpointActive b false) ∈ turnOps (t :: later)
  /-- The native step of every step so far is called back, or has ended. -/
  calledBack : stop.Settles → ∀ earlier t later, front ++ [stop] = earlier ++ t :: later →
    ∀ thread, t.before.step.stepper? = some thread →
      .native (.cancelStep thread) ∈ turnOps (t :: later) ∨
        ∃ u ∈ t :: later, u.input.EndsStepper thread

/-- A stop ends the step in flight exactly if it reaches the step controller. -/
theorem step_at_stop {config : SessionConfig} {front during : List Turn} {stop : Turn}
    {s : SessionState} (run : Runs EvalOp.Succeeds (.start config) (front ++ stop :: during) s)
    (stops : stop.Stops) (unasked : ∀ t ∈ during, ¬ t.AcceptsStep) :
    StepAtStop front stop during s := by
  obtain ⟨s', before, fromStop⟩ := runs_append_iff.mp run
  obtain ⟨rfl, happens, rest⟩ := runs_cons_iff.mp fromStop
  have settled := happens.idle_iff_settles stops
  -- From any turn up to the stop, what is armed then is gone at the stop.
  have handsOver (settles : stop.Settles) {earlier later : List Turn} {t : Turn}
      (split : front ++ [stop] = earlier ++ t :: later) :
      t.before.step.HandsOver (fun thread => ∃ u ∈ t :: later, u.input.EndsStepper thread)
        (turnOps (t :: later)) .idle := by
    have upToStop : Runs EvalOp.Succeeds (.start config) (earlier ++ t :: later) stop.after := by
      rw [← split]
      exact runs_append_iff.mpr ⟨_, before, .cons happens (.nil _)⟩
    obtain ⟨s', -, fromTurn⟩ := runs_append_iff.mp upToStop
    obtain ⟨rfl, -, -⟩ := runs_cons_iff.mp fromTurn
    rw [← settled.mpr settles]
    exact fromTurn.handsOver
  exact {
    idle := by
      refine ⟨fun idle => settled.mp ?_, fun settles => rest.idle unasked (settled.mpr settles)⟩
      cases during with
      | nil =>
          rw [← runs_nil_iff.mp rest]
          exact idle.2
      | cons t ts =>
          rw [(runs_cons_iff.mp rest).1]
          exact idle.1 t List.mem_cons_self
    survives := happens.progress.passed stops
    unrefused := fun settles t member isStep => by
      have idle := (rest.idle unasked (settled.mpr settles)).1 t member
      cases answer : t.answer with
      | ok result => exact absurd ⟨isStep, result, answer⟩ (unasked t member)
      | error e => rw [((rest.happens t member).progress.accepted isStep idle e answer).1]
    refused := fun t member => (rest.happens t member).progress.refused
    disarmed := fun settles earlier t later split b armed => by
      obtain kept | off := (handsOver settles split).breakpoint b armed
      · cases kept
      · exact off
    calledBack := fun settles earlier t later split thread native => by
      obtain kept | gone := (handsOver settles split).stepper thread native
      · cases kept
      · exact gone }

section EntryPoint

/-- A target with one module, of which the entry point is known and nothing else. -/
def entryModule : (call : NativeCall) → call.Answer
  | .frames _ => [⟨.managed, some ⟨1, 1⟩, 0⟩]
  | .moduleSymbols _ => some ⟨[], some 1⟩
  | .createBreakpoint .. => ⟨1⟩
  | _ => default

/-- The session is to stop at the entry point. -/
def launched : SessionState := .start { stopAtEntry := true }

/-- Before the program gets to its entry point, a step is asked for. -/
def toEntry : List Turn :=
  turns entryModule [.launch default, .notified (.moduleLoaded ⟨1, "A", "A.dll"⟩),
    .asked (.step .over 1)] launched

/-- The input that comes next. -/
def stopped (input : Input) : Turn := input.turn entryModule (afterTurns launched toEntry)

def afterStopped (input : Input) (inputs : List Input) : List Turn :=
  turns entryModule inputs (stopped input).after

theorem runs_afterStopped (input : Input) (inputs : List Input) :
    Runs EvalOp.Succeeds launched (toEntry ++ stopped input :: afterStopped input inputs)
      (afterTurns (stopped input).after (afterStopped input inputs)) :=
  runs_append_iff.mpr ⟨afterTurns launched toEntry, runs_turns entryModule _ _,
    .cons (happens_turn entryModule _ _) (runs_turns entryModule _ _)⟩

/-- The program stops by itself. -/
def programBreak : Input := .notified (.userBreak 1)

/-- The program gets to its entry point. -/
def entryHit : Input := .notified (.breakpointHit 1 ⟨1⟩)

theorem stops_programBreak : (stopped programBreak).Stops :=
  ⟨⟨1, .pause, some "Paused on Debugger.Break()", none⟩, none, by decide +kernel⟩

theorem stops_entryHit : (stopped entryHit).Stops :=
  ⟨⟨1, .entry, none, none⟩, none, by decide +kernel⟩

theorem threads_unasked : ∀ t ∈ afterStopped programBreak [.asked .threads], ¬ t.AcceptsStep :=
  List.forall_mem_singleton.mpr fun accepts => accepts.1

theorem stepAtStop_programBreak :
    (stopped programBreak).Stops ∧
      (∀ t ∈ afterStopped programBreak [.asked .threads], ¬ t.AcceptsStep) ∧
      StepAtStop toEntry (stopped programBreak) (afterStopped programBreak [.asked .threads])
        (afterTurns (stopped programBreak).after (afterStopped programBreak [.asked .threads])) :=
  ⟨stops_programBreak, threads_unasked,
    step_at_stop (runs_afterStopped _ _) stops_programBreak threads_unasked⟩

/-- At the entry point the step is still in flight, and the next one is refused. -/
theorem stepInProgress_at_entry :
    Runs EvalOp.Succeeds launched
        (toEntry ++ stopped entryHit :: afterStopped entryHit [.asked (.step .over 1)])
        (afterTurns (stopped entryHit).after (afterStopped entryHit [.asked (.step .over 1)])) ∧
      (stopped entryHit).Stops ∧ (stopped entryHit).after.step = .stepping 1 .over ∧
      (afterStopped entryHit [.asked (.step .over 1)]).map (·.answer) =
        [.error (.stepInProgress 1)] :=
  ⟨runs_afterStopped _ _, stops_entryHit, by with_unfolding_all rfl, by with_unfolding_all rfl⟩

end EntryPoint

end Session

end ManagedDebugger
