import ManagedDebugger.Proofs.Eval.Orderly.Interpreter
import ManagedDebugger.Proofs.Eval.Orderly.Variables
import ManagedDebugger.Proofs.Session.Handles
import ManagedDebugger.Proofs.Session.Task

/-!
# Tasks that leave a stop as it is

Most of what a session does while the target is stopped goes unnoticed: it does not resume the
target, reports no stop, keeps the step in flight, and every number that the front end holds stays
good. Such tasks are closed under composition, so each function of the session that is built from
them has a short proof.
-/

namespace ManagedDebugger

/-- What the tasks of a session did. -/
abbrev Transcript := List (Exchange (workEffect SessionState SessionEvent))

/-- The transcript tells the front end of a stop. -/
def Transcript.ReportsStop (es : Transcript) : Prop :=
  ∃ stop location, SessionEvent.stopped stop location ∈ emitted es

theorem Transcript.reportsStop_append_iff {first second : Transcript} :
    ReportsStop (first ++ second) ↔ first.ReportsStop ∨ second.ReportsStop := by
  simp only [ReportsStop, emitted_append, List.mem_append, exists_or]

theorem Transcript.not_reportsStop {es : Transcript} (silent : emitted es = []) :
    ¬ es.ReportsStop := by
  intro holds
  obtain ⟨stop, location, reported⟩ := holds
  rw [silent] at reported
  cases reported

/-- A transcript between two states leaves the stop as it is. -/
structure LeavesStop (es : Transcript) (s s' : SessionState) : Prop where
  resumes : Resumes 0 (evalOps es)
  silent : ¬ es.ReportsStop
  step : s'.step = s.step
  handles : s.handles.Numbered → s.handles.Extends s'.handles

namespace LeavesStop

theorem nil (s : SessionState) : LeavesStop [] s s where
  resumes := .nil
  silent := Transcript.not_reportsStop rfl
  step := rfl
  handles := .refl

theorem append {first second : Transcript} {s s' s'' : SessionState}
    (left : LeavesStop first s s') (right : LeavesStop second s' s'') :
    LeavesStop (first ++ second) s s'' where
  resumes := by
    rw [evalOps_append]
    exact left.resumes.append_none right.resumes
  silent := fun reported =>
    (Transcript.reportsStop_append_iff.mp reported).elim left.silent right.silent
  step := right.step.trans left.step
  handles := fun numbered =>
    (left.handles numbered).trans (right.handles (left.handles numbered).numbered)

end LeavesStop

/-- No call lets the target go on. -/
def Program.Calm {α : Type} (p : Program nativeEffect α) : Prop :=
  ∀ calls a, p.Plays calls a → ∀ x ∈ calls, x.op ≠ .continueProcess

namespace Program.Calm

variable {α β : Type}

theorem done (a : α) : Calm (Program.done a) := by
  intro calls b played
  obtain ⟨rfl, rfl⟩ := plays_done_iff.mp played
  exact List.forall_mem_nil _

theorem bind {p : Program nativeEffect α} {f : α → Program nativeEffect β} (first : p.Calm)
    (second : ∀ a, (f a).Calm) : (p.bind f).Calm := by
  intro calls b played
  obtain ⟨calls₁, a, calls₂, left, right, rfl⟩ := plays_bind_iff.mp played
  exact List.forall_mem_append.mpr ⟨first calls₁ a left, second a calls₂ b right⟩

theorem ask {c : NativeCall} (other : c ≠ .continueProcess) :
    Calm (Program.ask (E := nativeEffect) c) := by
  intro calls b played
  obtain rfl := plays_ask_iff.mp played
  exact List.forall_mem_singleton.mpr other

theorem ofInspects {p : Native α} (inspects : p.Inspects) : p.run.Calm := by
  induction inspects with
  | pure a => exact .done _
  | bind _ _ first second =>
      refine .bind first fun result => ?_
      cases result with
      | ok a => exact second a
      | error e => exact .done _
  | call c inspects =>
      refine .ask ?_
      intro same
      subst same
      cases inspects

theorem resumes_ofNative {calls : List (Exchange nativeEffect)}
    (other : ∀ x ∈ calls, x.op ≠ .continueProcess) :
    Resumes 0 ((calls.map Exchange.ofNative).map (·.op)) := by
  induction calls with
  | nil => exact .nil
  | cons x rest inductionHypothesis =>
      obtain ⟨here, there⟩ := List.forall_mem_cons.mp other
      have single : Resumes 0 [.native x.op] := resumes_single (by simpa using here) nofun
      exact single.append_none (inductionHypothesis there)

theorem steady {p : Program nativeEffect α} (calm : p.Calm) : Eval.Steady p.evaluating := by
  intro es a evaluated
  obtain ⟨calls, played, rfl⟩ := plays_evaluating_iff.mp evaluated
  exact resumes_ofNative (calm calls a played)

end Program.Calm

namespace Job

variable {possible : Exchange evalEffect → Prop} {α β : Type}

/-- Wherever it starts, the task leaves the stop as it is. -/
def Unobtrusive (possible : Exchange evalEffect → Prop) (p : SessionJob α) : Prop :=
  ∀ s, p.Ensures (alone possible) s fun es s' _ => LeavesStop es s s'

namespace Unobtrusive

theorem pure (a : α) : Unobtrusive possible (Pure.pure a : SessionJob α) :=
  fun s => Program.ensures_done_iff.mpr (.nil s)

theorem bind {p : SessionJob α} {f : α → SessionJob β} (first : Unobtrusive possible p)
    (second : ∀ a, Unobtrusive possible (f a)) : Unobtrusive possible (p >>= f) :=
  fun s => (first s).bind fun _ s' a left =>
    (second a s').mono fun _ _ _ right => left.append right

theorem update {f : SessionState → α × SessionState} (step : ∀ s, (f s).2.step = s.step)
    (handles : ∀ s : SessionState, s.handles.Numbered → s.handles.Extends (f s).2.handles) :
    Unobtrusive possible (Job.update f) :=
  fun s => ensures_update ⟨.nil, Transcript.not_reportsStop rfl, step s, handles s⟩

theorem emit {event : SessionEvent} (other : ∀ stop location, event ≠ .stopped stop location) :
    Unobtrusive possible (Job.emit event) := by
  refine fun s => ensures_emit ⟨.nil, ?_, rfl, .refl⟩
  intro holds
  obtain ⟨stop, location, reported⟩ := holds
  exact other stop location (List.mem_singleton.mp reported).symm

theorem working {p : Program evalEffect α} (steady : Eval.Steady p) :
    Unobtrusive possible p.working := by
  refine fun s => ensures_working fun ops _ a played _ => ⟨?_, ?_, rfl, .refl⟩
  · rw [evalOps_map_ofEval]
    exact steady ops a played
  · exact Transcript.not_reportsStop (emitted_map_ofEval ops)

theorem locked {lock : Lock} {p : SessionJob α} (inside : Unobtrusive possible p) :
    Unobtrusive possible (Job.locked lock p) := by
  refine fun s => ensures_locked ((inside s).mono fun es s' _ leaves => ?_)
  have acquired : LeavesStop [⟨.acquire lock, ()⟩] s s :=
    ⟨.nil, Transcript.not_reportsStop rfl, rfl, .refl⟩
  have released : LeavesStop [⟨.release lock, ()⟩] s' s' :=
    ⟨.nil, Transcript.not_reportsStop rfl, rfl, .refl⟩
  exact acquired.append (leaves.append released)

end Unobtrusive

theorem Unobtrusive.returning {p : SessionJob α} {P : α → Prop} (leaves : Unobtrusive possible p)
    (returns : p.Returns P) (s : SessionState) :
    p.Ensures (alone possible) s fun es s' a => LeavesStop es s s' ∧ P a :=
  fun es s' a played allowed => ⟨leaves s es s' a played allowed, returns es a played⟩

/-- A task that may fail goes on only if its first part succeeds. -/
theorem unobtrusive_work_bind {p : SessionWork α} {f : α → SessionWork β}
    (first : Unobtrusive possible p.run) (second : ∀ a, Unobtrusive possible (f a).run) :
    Unobtrusive possible (p >>= f).run := by
  refine .bind first fun result => ?_
  cases result with
  | ok a => exact second a
  | error e => exact .pure _

theorem unobtrusive_ofJob {p : SessionJob α} (done : Unobtrusive possible p) :
    Unobtrusive possible (Work.ofJob p).run :=
  .bind done fun _ => .pure _

theorem unobtrusive_native {p : Native α} (calm : p.run.Calm) :
    Unobtrusive possible (Job.native p) :=
  .working calm.steady

theorem unobtrusive_call {c : NativeCall} (other : c ≠ .continueProcess) :
    Unobtrusive possible (Work.native c : SessionWork c.Answer).run :=
  .bind (unobtrusive_native (.ask other)) fun _ => .pure _

theorem unobtrusive_workNative {p : Native α} (calm : p.run.Calm) :
    Unobtrusive possible (Work.ofNative p : SessionWork α).run :=
  .bind (unobtrusive_native calm) fun _ => .pure _

end Job

end ManagedDebugger
