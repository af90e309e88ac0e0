import ManagedDebugger.Proofs.Session.Background
import ManagedDebugger.Proofs.Step.Outcome

/-!
# What a session makes of a notification

While a notification is looked into, nothing is resumed and no stop is reported. The decision that
comes out is carried out by a single resume, a single report, or not at all. A decision to stop goes
together with the end of the step in flight, but for the two notifications that pass it by: the hit
of the breakpoint on the entry point, and the end of a native step that the step in flight did not
ask for.
-/

namespace ManagedDebugger

open Job

variable {possible : Exchange evalEffect → Prop}

namespace NativeEvent

/-- The notification can stop the session without a word to the step controller. -/
def PassesStep (event : NativeEvent) (s : SessionState) : Prop :=
  match event with
  | breakpointHit _ b => s.process.entryBreakpoint = some b
  | stepComplete thread _ => s.step.stepper? ≠ some thread
  | _ => False

/-- The notification can stop the session at all. -/
def CanStop : NativeEvent → Prop
  | breakpointHit .. | stepComplete .. | userBreak _ | exception .. => True
  | _ => False

/-- The target stays as it is, whatever the state of the session says: at its creation until the
front end has sent its breakpoints, at its end, and when an evaluation ends. -/
def IsHeld (event : NativeEvent) (s : SessionState) : Prop :=
  match event with
  | processCreated _ => s.process.configured = false
  | processExited _ | evalComplete .. | evalException .. => True
  | _ => False

theorem PassesStep.canStop {event : NativeEvent} {s : SessionState} (passes : event.PassesStep s) :
    event.CanStop := by
  cases event with
  | breakpointHit thread b => trivial
  | stepComplete thread reason => trivial
  | _ => exact passes.elim

theorem CanStop.not_isHeld {event : NativeEvent} (can : event.CanStop) (s : SessionState) :
    ¬ event.IsHeld s := by
  cases event with
  | processCreated pid => exact can.elim
  | processExited code => exact can.elim
  | evalComplete thread eval result => exact can.elim
  | evalException thread eval value => exact can.elim
  | _ => exact id

/-- The notification tells that a native step on the thread has ended. -/
def EndsStepper (event : NativeEvent) (thread : ThreadId) : Prop :=
  ∃ reason, event = .stepComplete thread reason

end NativeEvent

namespace Session

/-- The step in flight changes, and nothing else of the state. -/
structure MovesStep (es : Transcript) (s s' : SessionState) : Prop where
  resumes : Resumes 0 (evalOps es)
  silent : emitted es = []
  state : s' = { s with step := s'.step }

/-- A program of the step controller, with the state around it. -/
theorem ensures_onStep {α : Type} {p : StepContext → Stepping α} {s : SessionState}
    {Q : List EvalOp → Except EngineError α → StepState → Prop}
    (steady : ∀ ctx, (p ctx).Steady)
    (ensured : ∀ ctx, (p ctx).Ensures possible s.step Q) :
    (onStep p).Ensures (alone possible) s fun es s' r =>
      MovesStep es s s' ∧ Q (evalOps es) r s'.step := by
  refine update_bind (ensures_locked (update_bind ?_))
  refine Program.Ensures.bind (P := fun es s' out =>
    s' = s ∧ emitted es = [] ∧ Resumes 0 (evalOps es) ∧ Q (evalOps es) out.1 out.2)
    (ensures_working ?_) ?_
  · refine Program.Ensures.mono ((ensured _).steady (steady _)) fun ops _ out ended => ?_
    rw [evalOps_map_ofEval]
    exact ⟨rfl, emitted_map_ofEval ops, ended.2, ended.1⟩
  · intro es _ holds given
    obtain ⟨r, st⟩ := holds
    obtain ⟨rfl, silent, resumes, ended⟩ := given
    refine update_bind (Program.ensures_done_iff.mpr ⟨⟨?_, ?_, rfl⟩, ?_⟩)
    · simpa [evalOps] using resumes
    · simpa [emitted] using silent
    · simpa [evalOps] using ended

theorem onStep_bind {α β : Type} {p : StepContext → Stepping α} {f : α → SessionWork β}
    {s : SessionState} {P : List EvalOp → Except EngineError α → StepState → Prop}
    {Q : Transcript → SessionState → Except EngineError β → Prop}
    (steady : ∀ ctx, (p ctx).Steady) (ensured : ∀ ctx, (p ctx).Ensures possible s.step P)
    (ok : ∀ es s' a, MovesStep es s s' → P (evalOps es) (.ok a) s'.step →
      (f a).run.Ensures (alone possible) s' fun more => Q (es ++ more))
    (error : ∀ es s' e, MovesStep es s s' → P (evalOps es) (.error e) s'.step →
      Q es s' (.error e)) :
    ((ExceptT.mk (onStep p) : SessionWork α) >>= f).run.Ensures (alone possible) s Q := by
  have moved := ensures_onStep steady ensured
  refine Program.Ensures.run_bind (p := (ExceptT.mk (onStep p) : SessionWork α)) moved ?_ ?_
  · exact fun es s' a holds => ok es s' a holds.1 holds.2
  · exact fun es s' e holds => error es s' e holds.1 holds.2

/-- The target can stop after this: the step in flight is over, and the rest is as before. -/
structure EndsStep (event : NativeEvent) (es : Transcript) (s s' : SessionState) : Prop where
  resumes : Resumes 0 (evalOps es)
  silent : ¬ es.ReportsStop
  handles : s.handles.Numbered → s.handles.Extends s'.handles
  step : s'.step = .idle
  handsOver : s.step.HandsOver event.EndsStepper (evalOps es) s'.step

namespace MovesStep

variable {es : Transcript} {s s' : SessionState}

theorem not_reportsStop (moves : MovesStep es s s') : ¬ es.ReportsStop :=
  Transcript.not_reportsStop moves.silent

theorem handles (moves : MovesStep es s s') : s'.handles = s.handles := by rw [moves.state]

theorem leaves (moves : MovesStep es s s') (same : s'.step = s.step) : LeavesStop es s s' where
  resumes := moves.resumes
  silent := moves.not_reportsStop
  step := same
  handles := by
    rw [moves.handles]
    exact .refl

theorem ends {event : NativeEvent} (moves : MovesStep es s s') (idle : s'.step = .idle)
    (handsOver : s.step.HandsOver event.EndsStepper (evalOps es) s'.step) :
    EndsStep event es s s' where
  resumes := moves.resumes
  silent := moves.not_reportsStop
  handles := by
    rw [moves.handles]
    exact .refl
  step := idle
  handsOver := handsOver

end MovesStep

/-- Giving up the step in flight. -/
theorem ensures_cancelStep (s : SessionState) :
    cancelStep.Ensures (alone possible) s fun es s' _ =>
      MovesStep es s s' ∧ s'.step = .idle ∧
        s.step.HandsOver StepState.NoneEnded (evalOps es) s'.step := by
  refine Program.Ensures.bind
    (ensures_onStep (fun _ => Step.steady_cancel) fun _ => Step.ensures_cancel) ?_
  intro es s' _ holds
  obtain ⟨moves, -, given⟩ := holds
  refine Program.ensures_done_iff.mpr ?_
  rw [List.append_nil]
  exact ⟨moves, given⟩

/-- A step that is given up before a stop is settled. -/
theorem ensures_cancelStep_ends (event : NativeEvent) (s : SessionState) :
    cancelStep.Ensures (alone possible) s fun es s' _ => EndsStep event es s s' := by
  refine (ensures_cancelStep s).mono ?_
  intro es s' _ holds
  obtain ⟨moves, idle, handsOver⟩ := holds
  exact moves.ends idle (handsOver.mono fun _ => False.elim)

theorem EndsStep.after {event : NativeEvent} {first second : Transcript} {s s' s'' : SessionState}
    (ends : EndsStep event second s' s'') (leaves : LeavesStop first s s') :
    EndsStep event (first ++ second) s s'' where
  resumes := by
    rw [evalOps_append]
    exact leaves.resumes.append_none ends.resumes
  silent := fun reported =>
    (Transcript.reportsStop_append_iff.mp reported).elim leaves.silent ends.silent
  handles := fun numbered =>
    (leaves.handles numbered).trans (ends.handles (leaves.handles numbered).numbered)
  step := ends.step
  handsOver := by
    have handsOver := ends.handsOver
    rw [leaves.step] at handsOver
    rw [evalOps_append]
    exact handsOver.after

/-- What a session decided about a notification, and what it did on the way. -/
structure Decides (event : NativeEvent) (es : Transcript) (s s' : SessionState)
    (r : Except EngineError Action) : Prop where
  resumes : Resumes 0 (evalOps es)
  silent : ¬ es.ReportsStop
  numbered : s.handles.Numbered → s'.handles.Numbered
  handles : (∀ code, event ≠ .processExited code) → s.handles.Numbered →
    s.handles.Extends s'.handles
  held : r = .ok .hold ↔ event.IsHeld s
  can : ∀ stop, r = .ok (.stop stop) → event.CanStop
  passed : event.PassesStep s → ∀ stop, r = .ok (.stop stop) → s'.step = s.step
  settled : ¬ event.PassesStep s → ∀ stop, r = .ok (.stop stop) → s'.step = .idle
  handsOver : s.step.HandsOver event.EndsStepper (evalOps es) s'.step
  idle : (∀ stop, r ≠ .ok (.stop stop)) → s.step = .idle → s'.step = .idle

namespace Decides

variable {event : NativeEvent} {es : Transcript} {s s' : SessionState}
  {r : Except EngineError Action}

theorem ofLeaves (leaves : LeavesStop es s s') (other : ∀ stop, r ≠ .ok (.stop stop))
    (held : r = .ok .hold ↔ event.IsHeld s) : Decides event es s s' r where
  resumes := leaves.resumes
  silent := leaves.silent
  numbered := fun numbered => (leaves.handles numbered).numbered
  handles := fun _ => leaves.handles
  held := held
  can := fun stop stopped => absurd stopped (other stop)
  passed := fun _ stop stopped => absurd stopped (other stop)
  settled := fun _ stop stopped => absurd stopped (other stop)
  handsOver := leaves.step ▸ .refl
  idle := fun _ idle => leaves.step.trans idle

theorem ofMoves {first second : Transcript} {s' s'' : SessionState}
    (leaves : LeavesStop first s s') (moves : MovesStep second s' s'')
    (other : ∀ stop, r ≠ .ok (.stop stop)) (held : r = .ok .hold ↔ event.IsHeld s)
    (handsOver : s'.step.HandsOver event.EndsStepper (evalOps second) s''.step)
    (idle : s'.step = .idle → s''.step = .idle) : Decides event (first ++ second) s s'' r where
  resumes := by
    rw [evalOps_append]
    exact leaves.resumes.append_none moves.resumes
  silent := fun reported =>
    (Transcript.reportsStop_append_iff.mp reported).elim leaves.silent moves.not_reportsStop
  numbered := by
    rw [moves.handles]
    exact fun numbered => (leaves.handles numbered).numbered
  handles := by
    rw [moves.handles]
    exact fun _ => leaves.handles
  held := held
  can := fun stop stopped => absurd stopped (other stop)
  passed := fun _ stop stopped => absurd stopped (other stop)
  settled := fun _ stop stopped => absurd stopped (other stop)
  handsOver := by
    rw [leaves.step] at handsOver
    rw [evalOps_append]
    exact handsOver.after
  idle := fun _ before => idle (leaves.step.trans before)

theorem ofEnds {stop : Stop} (ends : EndsStep event es s s') (passes : ¬ event.PassesStep s)
    (can : event.CanStop) : Decides event es s s' (.ok (.stop stop)) where
  resumes := ends.resumes
  silent := ends.silent
  numbered := fun numbered => (ends.handles numbered).numbered
  handles := fun _ => ends.handles
  held := ⟨nofun, fun holds => absurd holds (can.not_isHeld s)⟩
  can := fun _ _ => can
  passed := fun holds => absurd holds passes
  settled := fun _ _ _ => ends.step
  handsOver := ends.handsOver
  idle := fun other => absurd rfl (other stop)

theorem ofPasses {stop : Stop} (leaves : LeavesStop es s s') (passes : event.PassesStep s) :
    Decides event es s s' (.ok (.stop stop)) where
  resumes := leaves.resumes
  silent := leaves.silent
  numbered := fun numbered => (leaves.handles numbered).numbered
  handles := fun _ => leaves.handles
  held := ⟨nofun, fun holds => absurd holds (passes.canStop.not_isHeld s)⟩
  can := fun _ _ => passes.canStop
  passed := fun _ _ _ => leaves.step
  settled := fun other => absurd passes other
  handsOver := leaves.step ▸ .refl
  idle := fun other => absurd rfl (other stop)

end Decides

section Events

variable (s : SessionState)

/-- Notifications after which the target goes on. -/
theorem decides_resume {event : NativeEvent} {p : SessionWork Action}
    (leaves : Unobtrusive possible p.run)
    (returns : p.run.Returns fun r => r = .ok .resume ∨ ∃ e, r = .error e)
    (held : ¬ event.IsHeld s) :
    p.run.Ensures (alone possible) s fun es s' r => Decides event es s s' r := by
  refine (leaves.returning returns s).mono ?_
  intro es s' r holds
  obtain ⟨leaves, outcome⟩ := holds
  refine .ofLeaves leaves ?_ ⟨?_, fun holds => absurd holds held⟩
  · intro stop same
    subst same
    obtain ⟨⟨⟩⟩ | ⟨e, ⟨⟩⟩ := outcome
  · intro same
    subst same
    obtain ⟨⟨⟩⟩ | ⟨e, ⟨⟩⟩ := outcome

theorem decides_processCreated (pid : UInt32) :
    (Work.ofJob (onProcessCreated pid) : SessionWork Action).run.Ensures (alone possible) s
      fun es s' r => Decides (.processCreated pid) es s s' r := by
  refine Work.ensures_ofJob (update_bind (Program.ensures_done_iff.mpr ?_))
  have leaves := LeavesStop.nil s
  cases configured : s.process.configured with
  | true =>
      refine .ofLeaves ⟨.nil, Transcript.not_reportsStop rfl, rfl, .refl⟩ nofun ?_
      simp [NativeEvent.IsHeld, configured]
  | false =>
      refine .ofLeaves ⟨.nil, Transcript.not_reportsStop rfl, rfl, .refl⟩ nofun ?_
      simp [NativeEvent.IsHeld, configured]

theorem decides_processExited (code : Int32) :
    (Work.ofJob (onProcessExited code) : SessionWork Action).run.Ensures (alone possible) s
      fun es s' r => Decides (.processExited code) es s s' r := by
  refine Work.ensures_ofJob (update_bind (update_bind ?_))
  refine (ensures_cancelStep _).bind ?_
  intro es s' _ holds
  obtain ⟨moves, idle, handsOver⟩ := holds
  refine emit_bind (emit_bind (Program.ensures_done_iff.mpr ?_))
  exact {
    resumes := by simpa [evalOps] using moves.resumes
    silent := by
      intro holds
      obtain ⟨stop, location, reported⟩ := holds
      change _ ∈ emitted (es ++ [⟨.emit (.exited code), ()⟩, ⟨.emit .terminated, ()⟩]) at reported
      rw [emitted_append, moves.silent] at reported
      simp [emitted] at reported
    numbered := by
      rw [moves.handles]
      exact fun _ => s.handles.numbered_clear
    handles := fun other => absurd rfl (other code)
    held := by simp [NativeEvent.IsHeld]
    can := nofun
    passed := nofun
    settled := nofun
    handsOver := by
      simpa [evalOps] using handsOver.mono fun _ => False.elim
    idle := fun _ _ => idle }

/-- The target goes on, or it stops and the step in flight is over. -/
def GoesOnOrEnds (event : NativeEvent) (es : Transcript) (s s' : SessionState) (a : Action) :
    Prop :=
  LeavesStop es s s' ∧ a = .resume ∨ ∃ stop, a = .stop stop ∧ EndsStep event es s s'

theorem GoesOnOrEnds.after {event : NativeEvent} {first second : Transcript}
    {s s' s'' : SessionState} {a : Action} (outcome : GoesOnOrEnds event second s' s'' a)
    (leaves : LeavesStop first s s') : GoesOnOrEnds event (first ++ second) s s'' a := by
  obtain ⟨left, rfl⟩ | ⟨stop, rfl, ends⟩ := outcome
  · exact .inl ⟨leaves.append left, rfl⟩
  · exact .inr ⟨stop, rfl, ends.after leaves⟩

/-- First something that leaves the stop as it is, and then one of the two. -/
theorem goesOnOrEnds_bind {α : Type} {event : NativeEvent} {s : SessionState} {p : SessionJob α}
    {f : α → SessionJob Action} (leaves : Unobtrusive possible p)
    (next : ∀ a s', (f a).Ensures (alone possible) s' fun es s'' a =>
      GoesOnOrEnds event es s' s'' a) :
    (p >>= f).Ensures (alone possible) s fun es s' a => GoesOnOrEnds event es s s' a :=
  (leaves s).bind fun _ s' a leaves =>
    (next a s').mono fun _ _ _ outcome => outcome.after leaves

theorem ensures_goOn (event : NativeEvent) (s : SessionState) :
    (pure Action.resume : SessionJob Action).Ensures (alone possible) s fun es s' a =>
      GoesOnOrEnds event es s s' a :=
  Program.ensures_done_iff.mpr (.inl ⟨.nil s, rfl⟩)

/-- A step that is given up before a stop. -/
theorem ensures_stop (event : NativeEvent) (stop : Stop) (s : SessionState) :
    (do cancelStep; return .stop stop : SessionJob Action).Ensures (alone possible) s
      fun es s' a => GoesOnOrEnds event es s s' a := by
  refine (ensures_cancelStep_ends event s).bind fun es s' _ ends => ?_
  refine Program.ensures_done_iff.mpr (.inr ⟨stop, rfl, ?_⟩)
  rw [List.append_nil]
  exact ends

theorem ensures_onUserBreakpoint (thread : ThreadId) (hit : NativeBreakpointId) :
    (onUserBreakpoint thread hit).Ensures (alone possible) s fun es s' a =>
      GoesOnOrEnds (.breakpointHit thread hit) es s s' a := by
  refine goesOnOrEnds_bind (unobtrusive_onBreakpoints fun _ _ => .done _) fun found s => ?_
  cases found with
  | none => exact ensures_goOn _ s
  | some b =>
      refine goesOnOrEnds_bind (unobtrusive_holds thread b.condition) fun held s => ?_
      cases held with
      | false => exact ensures_goOn _ s
      | true =>
          refine goesOnOrEnds_bind (unobtrusive_onBreakpoints fun _ _ => .done _) fun met s => ?_
          cases met with
          | false => exact ensures_goOn _ s
          | true => exact ensures_stop _ _ s

theorem Decides.ofGoesOnOrEnds {event : NativeEvent} {es : Transcript} {s s' : SessionState}
    {a : Action} (outcome : GoesOnOrEnds event es s s' a) (passes : ¬ event.PassesStep s)
    (can : event.CanStop) : Decides event es s s' (.ok a) := by
  obtain ⟨leaves, rfl⟩ | ⟨stop, rfl, ends⟩ := outcome
  · exact .ofLeaves leaves nofun ⟨nofun, fun holds => absurd holds (can.not_isHeld s)⟩
  · exact .ofEnds ends passes can

theorem decides_userBreak (thread : ThreadId) :
    (Work.ofJob (onUserBreak thread) : SessionWork Action).run.Ensures (alone possible) s
      fun es s' r => Decides (.userBreak thread) es s s' r :=
  Work.ensures_ofJob ((ensures_stop (.userBreak thread) _ s).mono fun _ _ _ outcome =>
    .ofGoesOnOrEnds outcome id trivial)

theorem decides_exception (thread : ThreadId) (stage : ExceptionStage) (exception : RemoteValue) :
    (onException thread stage exception).run.Ensures (alone possible) s
      fun es s' r => Decides (.exception thread stage exception) es s s' r := by
  refine Work.ofJob_bind (unobtrusive_get s) fun es s' settings leaves => ?_
  refine Program.Ensures.run_bind (unobtrusive_stopsAt _ stage thread s') ?_ ?_
  · intro es' s'' stops leaves'
    cases stops with
    | false =>
        refine Program.ensures_done_iff.mpr (.ofLeaves ?_ nofun ⟨nofun, nofun⟩)
        rw [List.append_nil]
        exact leaves.append leaves'
    | true =>
        refine Work.ofJob_bind (ensures_cancelStep_ends (.exception thread stage exception) s'')
          fun more s₃ _ ends => ?_
        refine Program.ensures_done_iff.mpr (.ofEnds ?_ id trivial)
        rw [List.append_nil]
        exact (ends.after leaves').after leaves
  · exact fun es' s'' e leaves' => .ofLeaves (leaves.append leaves') nofun ⟨nofun, nofun⟩

theorem decides_stepComplete (thread : ThreadId) (reason : StepReason) :
    (onStepComplete thread reason).run.Ensures (alone possible) s
      fun es s' r => Decides (.stepComplete thread reason) es s s' r := by
  refine onStep_bind (fun ctx => Step.steady_onStepComplete ctx thread reason)
    (fun ctx => Step.ensures_onStepComplete ctx thread reason) ?_ ?_
  · intro es s' outcome moves holds
    obtain ⟨unasked, asked, handsOver⟩ := holds
    have handsOver : s.step.HandsOver (NativeEvent.stepComplete thread reason).EndsStepper
        (evalOps es) s'.step := handsOver.mono fun _ same => ⟨reason, by rw [same]⟩
    refine Program.ensures_done_iff.mpr ?_
    rw [List.append_nil]
    by_cases own : s.step.stepper? = some thread
    · cases outcome with
      | resume =>
          refine .ofMoves (.nil s) moves nofun ⟨nofun, nofun⟩ handsOver fun idle => ?_
          rw [idle] at own
          cases own
      | stop t =>
          exact .ofEnds (moves.ends (asked own t rfl) handsOver) (fun no => no own) trivial
    · obtain ⟨⟨⟩, same⟩ := unasked own
      exact .ofPasses (moves.leaves same) own
  · intro es s' e moves holds
    obtain ⟨unasked, -, handsOver⟩ := holds
    refine .ofMoves (.nil s) moves nofun ⟨nofun, nofun⟩ ?_ fun idle => ?_
    · exact handsOver.mono fun _ same => ⟨reason, by rw [same]⟩
    · have unasked := unasked (by rw [idle]; nofun)
      cases unasked.1

theorem ensures_takeEntryBreakpoint (hit : NativeBreakpointId) :
    (takeEntryBreakpoint hit).Ensures (alone possible) s fun es s' taken =>
      LeavesStop es s s' ∧ (taken = true ↔ s.process.entryBreakpoint = some hit) := by
  refine (unobtrusive_takeEntryBreakpoint hit s).and (ensures_update ?_)
  dsimp only
  split
  case isTrue entry => exact ⟨fun _ => entry, fun _ => rfl⟩
  case isFalse other => exact ⟨nofun, fun entry => absurd entry other⟩

theorem decides_breakpointHit (thread : ThreadId) (hit : NativeBreakpointId) :
    (onBreakpointHit thread hit).run.Ensures (alone possible) s
      fun es s' r => Decides (.breakpointHit thread hit) es s s' r := by
  refine Work.ofJob_bind (ensures_takeEntryBreakpoint s hit) ?_
  intro es s' taken holds
  obtain ⟨leaves, entry⟩ := holds
  cases taken with
  | true =>
      have passes : (NativeEvent.breakpointHit thread hit).PassesStep s := entry.mp rfl
      refine Program.Ensures.run_bind
        (unobtrusive_call (c := .setBreakpointActive hit false) nofun s') ?_ ?_
      · intro es' s'' _ leaves'
        refine Program.ensures_done_iff.mpr ?_
        rw [List.append_nil]
        exact .ofPasses (leaves.append leaves') passes
      · exact fun es' s'' e leaves' =>
          .ofLeaves (leaves.append leaves') nofun ⟨nofun, nofun⟩
  | false =>
      have passes : ¬ (NativeEvent.breakpointHit thread hit).PassesStep s :=
        fun holds => nomatch entry.mpr holds
      refine onStep_bind (fun ctx => Step.steady_onBreakpoint ctx thread hit)
        (fun ctx => Step.ensures_onBreakpoint ctx thread hit) ?_ ?_
      · intro es' s'' outcome moves holds
        obtain ⟨foreign, ended, without, handsOver⟩ := holds
        have handsOver : s'.step.HandsOver (NativeEvent.breakpointHit thread hit).EndsStepper
            (evalOps es') s''.step := handsOver.mono fun _ => False.elim
        cases outcome with
        | none =>
            have leaves' := moves.leaves (foreign rfl)
            refine Work.ensures_ofJob ((ensures_onUserBreakpoint s'' thread hit).mono ?_)
            intro more s₃ a outcome
            exact .ofGoesOnOrEnds ((outcome.after leaves').after leaves) passes trivial
        | some outcome =>
            refine Program.ensures_done_iff.mpr ?_
            rw [List.append_nil]
            cases outcome with
            | resume =>
                exact .ofMoves leaves moves nofun ⟨nofun, nofun⟩ handsOver
                  fun idle => nomatch without idle
            | stop t =>
                exact .ofEnds ((moves.ends (ended t rfl) handsOver).after leaves) passes trivial
      · intro es' s'' e moves holds
        obtain ⟨-, -, without, handsOver⟩ := holds
        exact .ofMoves leaves moves nofun ⟨nofun, nofun⟩ (handsOver.mono fun _ => False.elim)
          fun idle => nomatch without idle

theorem returns_onModuleLoaded (module : ModuleInfo) :
    (onModuleLoaded module).run.Returns fun r => r = .ok .resume ∨ ∃ e, r = .error e := by
  have error (e : EngineError) : (Except.error e : Except EngineError Action) = .ok .resume ∨
      ∃ e', (Except.error e : Except EngineError Action) = .error e' := .inr ⟨e, rfl⟩
  refine Program.returns_run_bind error fun symbols => ?_
  have announced : (do
      Work.ofJob (modifyProcess fun p => { p with modules := p.modules ++ [module] })
      let changed ← Work.ofJob (onBreakpoints fun symbols r => r.moduleLoaded symbols module.id)
      breakAtEntry module.id
      Work.ofJob (Job.emit (.moduleLoaded module.name module.path))
      Work.ofJob (reportChanged changed)
      return Action.resume : SessionWork Action).run.Returns
        fun r => r = .ok .resume ∨ ∃ e, r = .error e := by
    refine Program.returns_run_bind error fun _ => ?_
    refine Program.returns_run_bind error fun changed => ?_
    refine Program.returns_run_bind error fun _ => ?_
    refine Program.returns_run_bind error fun _ => ?_
    refine Program.returns_run_bind error fun _ => ?_
    exact Program.returns_done (.inl rfl)
  cases symbols with
  | none => exact announced
  | some symbols => exact Program.returns_run_bind error fun _ => announced

/-- A task that always lets the target go on. -/
theorem decides_ofJob {event : NativeEvent} {p : SessionJob Action}
    (leaves : Unobtrusive possible p) (returns : p.Returns (· = .resume))
    (held : ¬ event.IsHeld s) :
    (Work.ofJob p : SessionWork Action).run.Ensures (alone possible) s
      fun es s' r => Decides event es s s' r := by
  refine decides_resume s (unobtrusive_ofJob leaves) (returns.bind ?_) held
  intro _ same
  subst same
  exact Program.returns_done (.inl rfl)

theorem decides_announced {event : NativeEvent} {told : SessionEvent}
    (other : ∀ stop location, told ≠ .stopped stop location) (held : ¬ event.IsHeld s) :
    (Work.ofJob (do Job.emit told; return .resume) : SessionWork Action).run.Ensures
      (alone possible) s fun es s' r => Decides event es s s' r :=
  decides_ofJob s (.bind (.emit other) fun _ => .pure _)
    ((Program.returns_trivial _).bind fun _ _ => Program.returns_done rfl) held

theorem returns_onModuleUnloaded (module : ModuleId) :
    (onModuleUnloaded module).Returns (· = .resume) := by
  refine (Program.returns_trivial _).bind fun _ _ => ?_
  refine (Program.returns_trivial _).bind fun _ _ => ?_
  refine (Program.returns_trivial _).bind fun changed _ => ?_
  exact (Program.returns_trivial _).bind fun _ _ => Program.returns_done rfl

end Events

/-- Every notification. -/
theorem ensures_decide (event : NativeEvent) (s : SessionState) :
    (decide event).run.Ensures (alone possible) s fun es s' r => Decides event es s s' r := by
  cases event with
  | processCreated pid => exact decides_processCreated s pid
  | processExited code => exact decides_processExited s code
  | domainCreated =>
      exact decides_resume s (.pure _) (Program.returns_done (.inl rfl)) id
  | threadCreated thread => exact decides_announced s (fun _ _ => nofun) id
  | threadExited thread => exact decides_announced s (fun _ _ => nofun) id
  | moduleLoaded module =>
      exact decides_resume s (unobtrusive_onModuleLoaded module) (returns_onModuleLoaded module) id
  | moduleUnloaded module =>
      exact decides_ofJob s (unobtrusive_onModuleUnloaded module)
        (returns_onModuleUnloaded module) id
  | breakpointHit thread b => exact decides_breakpointHit s thread b
  | stepComplete thread reason => exact decides_stepComplete s thread reason
  | userBreak thread => exact decides_userBreak s thread
  | exception thread stage v => exact decides_exception s thread stage v
  | evalComplete thread eval result =>
      exact Program.ensures_done_iff.mpr (.ofLeaves (.nil s) nofun ⟨fun _ => trivial, fun _ => rfl⟩)
  | evalException thread eval value =>
      exact Program.ensures_done_iff.mpr (.ofLeaves (.nil s) nofun ⟨fun _ => trivial, fun _ => rfl⟩)

end Session

end ManagedDebugger
