import ManagedDebugger.Proofs.Session.Turn

/-!
# What each turn does

A notification is handled by a decision and what carries it out: one resume, one report of a stop,
or nothing. Of the requests only those for a pause and for the end of the configuration touch a stop
without ending it; those that ask for something to look at leave it as it is.
-/

namespace ManagedDebugger

open Job

variable {possible : Exchange evalEffect → Prop}

namespace Session

/-- A report of a stop. -/
structure ReportsAStop (es : Transcript) (s s' : SessionState) : Prop where
  resumes : Resumes 0 (evalOps es)
  reported : es.ReportsStop
  step : s'.step = s.step
  handles : s.handles.Numbered → s.handles.Extends s'.handles

theorem ensures_reportStop (stop : Stop) (s : SessionState) :
    (reportStop stop).Ensures (alone possible) s fun es s' _ => ReportsAStop es s s' := by
  refine (unobtrusive_setStatus (.stopped stop.thread) s).bind fun es₁ s₁ _ first => ?_
  refine (unobtrusive_topLocation stop.thread s₁).bind fun es₂ s₂ location second => ?_
  refine ensures_emit ?_
  have leaves := first.append second
  rw [← List.append_assoc]
  refine ⟨?_, ⟨stop, location, ?_⟩, leaves.step, leaves.handles⟩
  · rw [evalOps_append]
    exact leaves.resumes.append_none .nil
  · rw [emitted_append]
    exact List.mem_append_right _ (List.mem_singleton.mpr rfl)

theorem ensures_applyResume (s : SessionState) :
    (apply .resume).Ensures (alone possible) s fun es s' _ =>
      evalOps es = [.native .continueProcess] ∧ emitted es = [] ∧ s' = s := by
  refine Program.ensures_perform_iff.mpr ?_
  intro reply s' holds
  obtain ⟨-, rfl⟩ := holds
  exact Program.ensures_done_iff.mpr ⟨rfl, rfl, rfl⟩

theorem resumes_continue : Resumes 1 [.native .continueProcess] := fun rest => by
  simp [ownResumes, Nat.add_comm]

/-- What became of a notification. -/
structure Handles (event : NativeEvent) (es : Transcript) (s s' : SessionState) : Prop where
  numbered : s.handles.Numbered → s'.handles.Numbered
  handles : (∀ code, event ≠ .processExited code) → s.handles.Numbered →
    s.handles.Extends s'.handles
  can : es.ReportsStop → event.CanStop
  stopped : es.ReportsStop → Resumes 0 (evalOps es)
  held : event.IsHeld s → Resumes 0 (evalOps es)
  resumed : ¬ es.ReportsStop → ¬ event.IsHeld s → Resumes 1 (evalOps es)
  passed : es.ReportsStop → event.PassesStep s → s'.step = s.step
  settled : es.ReportsStop → ¬ event.PassesStep s → s'.step = .idle
  handsOver : s.step.HandsOver event.EndsStepper (evalOps es) s'.step
  idle : ¬ es.ReportsStop → s.step = .idle → s'.step = .idle

/-- A decision that lets the target go on. -/
theorem Decides.resumed {event : NativeEvent} {first second : Transcript} {s s' : SessionState}
    {r : Except EngineError Action} (decided : Decides event first s s' r)
    (other : ∀ stop, r ≠ .ok (.stop stop)) (held : r ≠ .ok .hold)
    (ops : evalOps second = [.native .continueProcess]) (silent : emitted second = []) :
    Handles event (first ++ second) s s' := by
  have notHeld : ¬ event.IsHeld s := fun holds => held (decided.held.mpr holds)
  have notReported : ¬ Transcript.ReportsStop (first ++ second) := fun reported =>
    (Transcript.reportsStop_append_iff.mp reported).elim decided.silent
      (Transcript.not_reportsStop silent)
  exact {
    numbered := decided.numbered
    handles := decided.handles
    can := fun reported => absurd reported notReported
    stopped := fun reported => absurd reported notReported
    held := fun holds => absurd holds notHeld
    resumed := fun _ _ => by
      rw [evalOps_append, ops]
      exact decided.resumes.append resumes_continue
    passed := fun reported => absurd reported notReported
    settled := fun reported => absurd reported notReported
    handsOver := by
      rw [evalOps_append]
      exact decided.handsOver.append .refl
    idle := fun _ => decided.idle other }

/-- A decision to stop. -/
theorem Decides.stopped {event : NativeEvent} {first second : Transcript} {s s' s'' : SessionState}
    {stop : Stop} (decided : Decides event first s s' (.ok (.stop stop)))
    (report : ReportsAStop second s' s'') : Handles event (first ++ second) s s'' := by
  have reported : Transcript.ReportsStop (first ++ second) :=
    Transcript.reportsStop_append_iff.mpr (.inr report.reported)
  have resumes : Resumes 0 (evalOps (first ++ second)) := by
    rw [evalOps_append]
    exact decided.resumes.append_none report.resumes
  exact {
    numbered := fun numbered => (report.handles (decided.numbered numbered)).numbered
    handles := fun other numbered =>
      (decided.handles other numbered).trans (report.handles (decided.numbered numbered))
    can := fun _ => decided.can stop rfl
    stopped := fun _ => resumes
    held := fun _ => resumes
    resumed := fun silent => absurd reported silent
    passed := fun _ passes => report.step.trans (decided.passed passes stop rfl)
    settled := fun _ passes => report.step.trans (decided.settled passes stop rfl)
    handsOver := by
      rw [evalOps_append, report.step]
      exact decided.handsOver.append .refl
    idle := fun silent => absurd reported silent }

theorem ensures_handle (event : NativeEvent) (s : SessionState) :
    (handle event).Ensures (alone possible) s fun es s' _ => Handles event es s s' := by
  refine (ensures_decide event s).bind fun es s' r decided => ?_
  cases r with
  | error e =>
      refine (ensures_applyResume s').mono ?_
      intro more _ _ holds
      obtain ⟨ops, silent, rfl⟩ := holds
      exact decided.resumed nofun nofun ops silent
  | ok action =>
      cases action with
      | resume =>
          refine (ensures_applyResume s').mono ?_
          intro more _ _ holds
          obtain ⟨ops, silent, rfl⟩ := holds
          exact decided.resumed nofun nofun ops silent
      | stop stop =>
          exact (ensures_reportStop stop s').mono fun _ _ _ report => decided.stopped report
      | hold =>
          refine Program.ensures_done_iff.mpr ?_
          rw [List.append_nil]
          exact {
            numbered := decided.numbered
            handles := decided.handles
            can := fun reported => absurd reported decided.silent
            stopped := fun _ => decided.resumes
            held := fun _ => decided.resumes
            resumed := fun _ other => absurd (decided.held.mp rfl) other
            passed := fun reported => absurd reported decided.silent
            settled := fun reported => absurd reported decided.silent
            handsOver := decided.handsOver
            idle := fun _ => decided.idle nofun }

/-- A request that is answered with nothing but its success. -/
theorem ensures_answered {p : SessionWork Unit} {s : SessionState}
    {Q : Transcript → SessionState → Prop}
    (ensured : p.run.Ensures (alone possible) s fun es s' _ => Q es s') :
    (do p; return doneJson : SessionWork Json).run.Ensures (alone possible) s
      fun es s' _ => Q es s' := by
  refine Program.Ensures.run_bind ensured ?_ fun es s' _ holds => holds
  intro es s' _ holds
  refine Program.ensures_done_iff.mpr ?_
  rw [List.append_nil]
  exact holds

theorem unobtrusive_map {α β : Type} (f : α → β) {p : SessionWork α}
    (leaves : Unobtrusive possible p.run) : Unobtrusive possible (f <$> p).run := by
  refine .bind leaves fun result => ?_
  cases result with
  | ok a => exact .pure _
  | error e => exact .pure _

/-- Requests that look at something, or set breakpoints. -/
def Looks : SessionRequest → Prop
  | .setBreakpoints .. | .threads | .stackTrace .. | .scopes _ | .children .. | .evaluate .. => True
  | _ => False

theorem unobtrusive_looks {request : SessionRequest} (looks : Looks request) :
    Unobtrusive possible request.work.run := by
  cases request with
  | setBreakpoints source breakpoints =>
      exact unobtrusive_work_bind (unobtrusive_ofJob (unobtrusive_setBreakpoints _ _))
        fun _ => .pure _
  | threads => exact unobtrusive_work_bind unobtrusive_threads fun _ => .pure _
  | stackTrace thread start levels =>
      exact unobtrusive_work_bind (unobtrusive_stackTrace _ _ _) fun _ => .pure _
  | scopes frame => exact unobtrusive_work_bind (unobtrusive_scopes frame) fun _ => .pure _
  | children reference start count =>
      exact unobtrusive_work_bind (unobtrusive_children _ _ _) fun _ => .pure _
  | evaluate expression frame =>
      exact unobtrusive_work_bind (unobtrusive_evaluate _ _) fun _ => .pure _
  | _ => exact looks.elim

/-- The end of the configuration lets go of a process that is held at its creation. -/
theorem ensures_configurationDone (s : SessionState) :
    configurationDone.run.Ensures (alone possible) s fun es s' _ =>
      (s.process.heldAtCreate = true → Resumes 1 (evalOps es)) ∧
      (s.process.heldAtCreate = false → Resumes 0 (evalOps es)) ∧
      emitted es = [] ∧ s'.step = s.step ∧ s'.handles = s.handles := by
  refine Work.ofJob_bind (ensures_update (Q := fun es s' held =>
    evalOps es = [] ∧ emitted es = [] ∧ s'.step = s.step ∧ s'.handles = s.handles ∧
      held = s.process.heldAtCreate) ⟨rfl, rfl, rfl, rfl, rfl⟩) ?_
  intro es s' held holds
  obtain ⟨ops, silent, step, handles, rfl⟩ := holds
  cases held : s.process.heldAtCreate with
  | false =>
      refine Program.ensures_done_iff.mpr ?_
      rw [List.append_nil, ops]
      exact ⟨nofun, fun _ => .nil, silent, step, handles⟩
  | true =>
      refine Program.ensures_perform_iff.mpr ?_
      intro reply s'' holds
      obtain ⟨-, rfl⟩ := holds
      refine Program.ensures_done_iff.mpr ⟨fun _ => ?_, nofun, ?_, step, handles⟩
      · rw [evalOps_append, ops]
        exact resumes_continue
      · rw [emitted_append, silent]
        rfl

/-- A pause: if a stop is reported, then the step in flight is over. -/
structure Pauses (es : Transcript) (s s' : SessionState) : Prop where
  resumes : Resumes 0 (evalOps es)
  handles : s.handles.Numbered → s.handles.Extends s'.handles
  ended : es.ReportsStop → s'.step = .idle
  handsOver : s.step.HandsOver StepState.NoneEnded (evalOps es) s'.step
  idle : s.step = .idle → s'.step = .idle

namespace Pauses

variable {first second : Transcript} {s s' s'' : SessionState}

theorem ofLeaves (leaves : LeavesStop first s s') : Pauses first s s' where
  resumes := leaves.resumes
  handles := leaves.handles
  ended := fun reported => absurd reported leaves.silent
  handsOver := leaves.step ▸ .refl
  idle := leaves.step.trans

theorem after (pauses : Pauses second s' s'') (leaves : LeavesStop first s s') :
    Pauses (first ++ second) s s'' where
  resumes := by
    rw [evalOps_append]
    exact leaves.resumes.append_none pauses.resumes
  handles := fun numbered =>
    (leaves.handles numbered).trans (pauses.handles (leaves.handles numbered).numbered)
  ended := fun reported => by
    cases Transcript.reportsStop_append_iff.mp reported with
    | inl reported => exact absurd reported leaves.silent
    | inr reported => exact pauses.ended reported
  handsOver := by
    have handsOver := pauses.handsOver
    rw [leaves.step] at handsOver
    rw [evalOps_append]
    exact handsOver.after
  idle := fun before => pauses.idle (leaves.step.trans before)

/-- Once the step is given up, whatever follows keeps it so. -/
theorem ofCancel (moves : MovesStep first s s') (idle : s'.step = .idle)
    (handsOver : s.step.HandsOver StepState.NoneEnded (evalOps first) s'.step)
    (resumes : Resumes 0 (evalOps second)) (step : s''.step = s'.step)
    (handles : s'.handles.Numbered → s'.handles.Extends s''.handles) :
    Pauses (first ++ second) s s'' where
  resumes := by
    rw [evalOps_append]
    exact moves.resumes.append_none resumes
  handles := by
    rw [moves.handles] at handles
    exact handles
  ended := fun _ => step.trans idle
  handsOver := by
    rw [evalOps_append, step]
    exact handsOver.append .refl
  idle := fun _ => step.trans idle

end Pauses

/-- First something that leaves the stop as it is, then the rest of the pause. -/
theorem pauses_bind {α β : Type} {s : SessionState} {p : SessionWork α} {f : α → SessionWork β}
    (leaves : Unobtrusive possible p.run)
    (next : ∀ a s', (f a).run.Ensures (alone possible) s' fun es s'' _ => Pauses es s' s'') :
    (p >>= f).run.Ensures (alone possible) s fun es s' _ => Pauses es s s' := by
  refine Program.Ensures.run_bind (leaves s) (fun first s' a leaves => ?_) ?_
  · exact (next a s').mono fun _ _ _ pauses => pauses.after leaves
  · exact fun first s' e leaves => .ofLeaves leaves

theorem ensures_pause (s : SessionState) :
    pause.run.Ensures (alone possible) s fun es s' _ => Pauses es s s' := by
  refine pauses_bind unobtrusive_requireProcess fun _ s => ?_
  refine pauses_bind (unobtrusive_call (c := .stopProcess) nofun) fun _ s => ?_
  refine Work.ofJob_bind (ensures_cancelStep s) ?_
  intro first s₁ _ holds
  obtain ⟨moves, idle, handsOver⟩ := holds
  refine Program.Ensures.run_bind (unobtrusive_call (c := .threads) nofun s₁) ?_ ?_
  · intro second s₂ threads leaves
    refine Work.ensures_ofJob ((ensures_reportStop _ s₂).mono fun third s₃ _ report => ?_)
    refine .ofCancel moves idle handsOver ?_ (report.step.trans leaves.step) ?_
    · rw [evalOps_append]
      exact leaves.resumes.append_none report.resumes
    · exact fun numbered =>
        (leaves.handles numbered).trans (report.handles (leaves.handles numbered).numbered)
  · exact fun second s₂ e leaves =>
      .ofCancel moves idle handsOver leaves.resumes leaves.step leaves.handles

/-- What ends a stop, and nothing that the front end would see as one. -/
structure Releases (es : Transcript) (s s' : SessionState) : Prop where
  silent : ¬ es.ReportsStop
  numbered : s.handles.Numbered → s'.handles.Numbered
  handsOver : s.step.HandsOver StepState.NoneEnded (evalOps es) s'.step

namespace Releases

variable {first second : Transcript} {s s' s'' : SessionState}

theorem ofLeaves (leaves : LeavesStop first s s') : Releases first s s' where
  silent := leaves.silent
  numbered := fun numbered => (leaves.handles numbered).numbered
  handsOver := leaves.step ▸ .refl

theorem ofMoves (moves : MovesStep first s s')
    (handsOver : s.step.HandsOver StepState.NoneEnded (evalOps first) s'.step) :
    Releases first s s' where
  silent := moves.not_reportsStop
  numbered := by
    rw [moves.handles]
    exact id
  handsOver := handsOver

theorem append (left : Releases first s s') (right : Releases second s' s'') :
    Releases (first ++ second) s s'' where
  silent := fun reported =>
    (Transcript.reportsStop_append_iff.mp reported).elim left.silent right.silent
  numbered := fun numbered => right.numbered (left.numbered numbered)
  handsOver := by
    rw [evalOps_append]
    exact left.handsOver.append right.handsOver

end Releases

/-- Wherever it starts, the task may end a stop, and the step in flight with it. -/
def Releasing {α : Type} (possible : Exchange evalEffect → Prop) (p : SessionJob α) : Prop :=
  ∀ s, p.Ensures (alone possible) s fun es s' _ => Releases es s s'

namespace Releasing

variable {α β : Type}

theorem ofLeaves {p : SessionJob α} (leaves : Unobtrusive possible p) : Releasing possible p :=
  fun s => (leaves s).mono fun _ _ _ => .ofLeaves

theorem bind {p : SessionJob α} {f : α → SessionJob β} (first : Releasing possible p)
    (second : ∀ a, Releasing possible (f a)) : Releasing possible (p >>= f) :=
  fun s => (first s).bind fun _ s' a left =>
    (second a s').mono fun _ _ _ right => left.append right

theorem run_bind {p : SessionWork α} {f : α → SessionWork β} (first : Releasing possible p.run)
    (second : ∀ a, Releasing possible (f a).run) : Releasing possible (p >>= f).run := by
  refine first.bind fun result => ?_
  cases result with
  | ok a => exact second a
  | error e => exact .ofLeaves (.pure _)

theorem ofJob {p : SessionJob α} (releasing : Releasing possible p) :
    Releasing possible (Work.ofJob p).run :=
  releasing.bind fun _ => .ofLeaves (.pure _)

theorem call (c : NativeCall) :
    Releasing possible (Work.native c : SessionWork c.Answer).run := by
  intro s
  refine Program.ensures_perform_iff.mpr ?_
  intro reply s' holds
  obtain ⟨-, rfl⟩ := holds
  exact Program.ensures_done_iff.mpr ⟨Transcript.not_reportsStop rfl, id, .refl⟩

end Releasing

theorem releasing_clearHandles : Releasing possible clearHandles := fun s =>
  ensures_update ⟨Transcript.not_reportsStop rfl, fun _ => s.handles.numbered_clear, .refl⟩

theorem releasing_cancelStep : Releasing possible cancelStep :=
  fun s => (ensures_cancelStep s).mono fun _ _ _ cancelled =>
    .ofMoves cancelled.1 cancelled.2.2

theorem releasing_resume : Releasing possible resume.run := by
  refine .run_bind (.ofJob releasing_clearHandles) fun _ => ?_
  refine .run_bind (.ofJob (.ofLeaves (unobtrusive_setStatus .running))) fun _ => ?_
  refine .run_bind (.call .continueProcess) fun _ => ?_
  exact .ofJob (.ofLeaves (.emit fun _ _ => nofun))

theorem releasing_continue : Releasing possible continue_.run :=
  .run_bind (.ofLeaves unobtrusive_requireProcess) fun _ => releasing_resume

theorem releasing_step (thread : ThreadId) (kind : StepKind) :
    Releasing possible (step thread kind).run := by
  refine .run_bind (.ofLeaves unobtrusive_requireProcess) fun _ => ?_
  refine .run_bind (p := ExceptT.mk (onStep fun ctx => Step.start ctx thread kind)) ?_
    fun _ => releasing_resume
  intro s
  refine (ensures_onStep (fun ctx => Step.steady_start ctx thread kind)
    fun ctx => Step.ensures_start_handsOver ctx thread kind).mono ?_
  exact fun _ _ _ moved => .ofMoves moved.1 moved.2

theorem releasing_terminate : Releasing possible terminate.run := by
  refine .run_bind (.ofLeaves unobtrusive_requireProcess) fun _ => ?_
  exact .run_bind (.ofJob releasing_cancelStep) fun _ => .call .terminate

theorem releasing_disconnect (kill : Bool) : Releasing possible (disconnect kill) := by
  refine .bind (.ofLeaves unobtrusive_isLive) fun live => ?_
  cases live with
  | false => exact .ofLeaves (.pure _)
  | true =>
      refine .bind releasing_cancelStep fun _ => .bind releasing_clearHandles fun _ => ?_
      refine .bind (.ofLeaves (unobtrusive_native (.ask ?_))) fun _ => .ofLeaves (.pure _)
      cases kill <;> nofun

end Session

end ManagedDebugger
