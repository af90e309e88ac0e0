import ManagedDebugger.Proofs.Session.Handling

/-!
# Who resumes the target during a stop

A session does not look at whether it is stopped when a notification comes in. From the moment a
stop is reported until the front end asks for its end, the session resumes the target once for each
notification that neither stops it nor is held, and once at the end of the configuration if a
process was held at its creation; at no other time. The numbers that the front end holds outlive
these resumes: only its own requests, and the end of the process, make them bad.
-/

namespace ManagedDebugger

open Job

variable {possible : Exchange evalEffect → Prop}

namespace Session

/-- The session lets the target go on for an input that the front end did not mean so. -/
def Input.LetsGo (input : Input) (es : Transcript) (s : SessionState) : Prop :=
  match input with
  | .notified event => ¬ es.ReportsStop ∧ ¬ event.IsHeld s
  | .asked .configurationDone => s.process.heldAtCreate = true
  | _ => False

/-- What a turn does about resumes and numbers. -/
structure Resumption (input : Input) (es : Transcript) (s s' : SessionState) : Prop where
  numbered : s.handles.Numbered → s'.handles.Numbered
  handles : ¬ input.EndsStop → ¬ input.IsExit → s.handles.Numbered → s.handles.Extends s'.handles
  stopped : es.ReportsStop → Resumes 0 (evalOps es)
  resumed : ¬ input.EndsStop → input.LetsGo es s → Resumes 1 (evalOps es)
  can : ∀ event, input = .notified event → es.ReportsStop → event.CanStop
  stayed : ¬ input.EndsStop → ¬ input.LetsGo es s → Resumes 0 (evalOps es)

namespace Resumption

variable {input : Input} {es : Transcript} {s s' : SessionState}

theorem ofLeaves (leaves : LeavesStop es s s') (other : ¬ input.LetsGo es s) :
    Resumption input es s s' where
  numbered := fun numbered => (leaves.handles numbered).numbered
  handles := fun _ _ => leaves.handles
  stopped := fun _ => leaves.resumes
  can := fun _ _ reported => absurd reported leaves.silent
  resumed := fun _ letsGo => absurd letsGo other
  stayed := fun _ _ => leaves.resumes

theorem ofReleases (releases : Releases es s s') (ends : input.EndsStop) :
    Resumption input es s s' where
  numbered := releases.numbered
  handles := fun kept => absurd ends kept
  stopped := fun reported => absurd reported releases.silent
  can := fun _ _ reported => absurd reported releases.silent
  resumed := fun kept => absurd ends kept
  stayed := fun kept => absurd ends kept

theorem ofHandles {event : NativeEvent} (handles : Handles event es s s') :
    Resumption (.notified event) es s s' where
  numbered := handles.numbered
  handles := fun _ exit => handles.handles fun code same => exit (by rw [same]; trivial)
  stopped := handles.stopped
  can := by
    intro _ same
    cases same
    exact handles.can
  resumed := fun _ letsGo => handles.resumed letsGo.1 letsGo.2
  stayed := fun _ stays => by
    by_cases reported : es.ReportsStop
    · exact handles.stopped reported
    · exact handles.held (Classical.not_not.mp fun held => stays ⟨reported, held⟩)

theorem ofPauses (pauses : Pauses es s s') : Resumption (.asked .pause) es s s' where
  numbered := fun numbered => (pauses.handles numbered).numbered
  handles := fun _ _ => pauses.handles
  stopped := fun _ => pauses.resumes
  can := nofun
  resumed := fun _ letsGo => letsGo.elim
  stayed := fun _ _ => pauses.resumes

theorem ofConfigurationDone
    (done : (s.process.heldAtCreate = true → Resumes 1 (evalOps es)) ∧
      (s.process.heldAtCreate = false → Resumes 0 (evalOps es)) ∧
      emitted es = [] ∧ s'.step = s.step ∧ s'.handles = s.handles) :
    Resumption (.asked .configurationDone) es s s' := by
  obtain ⟨released, notHeld, silent, -, handles⟩ := done
  exact {
    numbered := by
      rw [handles]
      exact id
    handles := by
      rw [handles]
      exact fun _ _ => .refl
    can := nofun
    stopped := fun reported => absurd reported (Transcript.not_reportsStop silent)
    resumed := fun _ letsGo => released letsGo
    stayed := fun _ stays => notHeld (Bool.eq_false_iff.mpr stays) }

end Resumption

/-- The tasks of requests that only look at something, or set breakpoints. -/
theorem resumption_ofUnobtrusive {p : SessionJob (Except EngineError Json)} {input : Input}
    (leaves : Unobtrusive possible p) (other : ∀ es s, ¬ input.LetsGo es s) (s : SessionState) :
    p.Ensures (alone possible) s fun es s' _ => Resumption input es s s' :=
  (leaves s).mono fun es _ _ leaves => .ofLeaves leaves (other es s)

theorem resumption_ofReleasing {p : SessionJob (Except EngineError Json)} (input : Input)
    (releasing : Releasing possible p) (ends : input.EndsStop) (s : SessionState) :
    p.Ensures (alone possible) s fun es s' _ => Resumption input es s s' :=
  (releasing s).mono fun _ _ _ releases => .ofReleases releases ends

theorem resumption_asked (request : SessionRequest) (s : SessionState) :
    request.work.run.Ensures (alone possible) s fun es s' _ =>
      Resumption (.asked request) es s s' := by
  have releasing {p : SessionWork Unit} (releasing : Releasing possible p.run) :
      Releasing possible (do p; return doneJson : SessionWork Json).run :=
    fun s => ensures_answered (releasing s)
  have looks {request : SessionRequest} (looks : Looks request) :
      request.work.run.Ensures (alone possible) s fun es s' _ =>
        Resumption (.asked request) es s s' := by
    refine resumption_ofUnobtrusive (unobtrusive_looks looks) (fun _ _ letsGo => ?_) s
    cases request with
    | configurationDone => exact looks.elim
    | _ => exact letsGo
  cases request with
  | configurationDone =>
      refine Program.Ensures.mono (ensures_answered (ensures_configurationDone s)) ?_
      exact fun _ _ _ done => .ofConfigurationDone done
  | continue_ =>
      exact resumption_ofReleasing (.asked .continue_) (releasing releasing_continue) trivial s
  | pause =>
      refine Program.Ensures.mono (ensures_answered (ensures_pause s)) ?_
      exact fun _ _ _ pauses => .ofPauses pauses
  | step kind thread =>
      exact resumption_ofReleasing (.asked (.step kind thread))
        (releasing (releasing_step thread kind)) trivial s
  | terminate =>
      exact resumption_ofReleasing (.asked .terminate) (releasing releasing_terminate) trivial s
  | _ => exact looks trivial

theorem resumption_task (input : Input) (s : SessionState) :
    input.task.Ensures (alone possible) s fun es s' _ => Resumption input es s s' := by
  cases input with
  | notified event =>
      refine Program.ensures_map_iff.mpr ((ensures_handle event s).mono ?_)
      exact fun es s' _ handles => .ofHandles handles
  | launch request =>
      refine resumption_ofUnobtrusive ?_ (fun _ _ => id) s
      exact unobtrusive_map pidJson (unobtrusive_launch request)
  | attach pid =>
      refine resumption_ofUnobtrusive ?_ (fun _ _ => id) s
      exact unobtrusive_map _ (unobtrusive_attach pid)
  | asked request => exact resumption_asked request s
  | disconnect kill =>
      refine resumption_ofReleasing (.disconnect kill) ?_ trivial s
      exact (releasing_disconnect kill).bind fun _ => .ofLeaves (.pure _)

namespace Turn

variable {t : Turn}

/-- The session lets the target go on, and the front end did not mean it to. -/
def LetsGo (t : Turn) : Prop := t.input.LetsGo t.transcript t.before

theorem Happens.resumption (happens : t.Happens possible) :
    Resumption t.input t.transcript t.before t.after :=
  happens.ensured (resumption_task t.input t.before)

theorem Happens.ownResumes_of_letsGo (happens : t.Happens possible) (kept : ¬ t.input.EndsStop)
    (letsGo : t.LetsGo) : t.ownResumes = 1 :=
  (happens.resumption.resumed kept letsGo).count

theorem Happens.ownResumes_of_not_letsGo (happens : t.Happens possible)
    (kept : ¬ t.input.EndsStop) (stays : ¬ t.LetsGo) : t.ownResumes = 0 :=
  (happens.resumption.stayed kept stays).count

theorem Happens.ownResumes_eq_zero_iff (happens : t.Happens possible)
    (kept : ¬ t.input.EndsStop) : t.ownResumes = 0 ↔ ¬ t.LetsGo := by
  constructor
  · intro none letsGo
    have one := happens.ownResumes_of_letsGo kept letsGo
    omega
  · exact happens.ownResumes_of_not_letsGo kept

/-- What cannot stop the session always lets the target go on, unless it is held. -/
theorem Happens.letsGo_of_not_canStop (happens : t.Happens possible) {event : NativeEvent}
    (notified : t.input = .notified event) (cannot : ¬ event.CanStop)
    (other : ¬ event.IsHeld t.before) : t.LetsGo := by
  have silent : ¬ t.transcript.ReportsStop :=
    fun reported => cannot (happens.resumption.can event notified reported)
  unfold LetsGo
  rw [notified]
  exact ⟨silent, other⟩

end Turn

theorem Runs.numbered {ts : List Turn} {s s' : SessionState} (run : Runs possible s ts s')
    (numbered : s.handles.Numbered) : s'.handles.Numbered :=
  run.preserves (P := fun s => s.handles.Numbered)
    (fun _ _ happens => happens.resumption.numbered) numbered

/-- Numbers stay good over any number of resumes, as long as the front end asks for none and the
process goes on. -/
theorem Runs.extends {ts : List Turn} {s s' : SessionState} (run : Runs possible s ts s')
    (kept : ∀ t ∈ ts, ¬ t.input.EndsStop) (alive : ∀ t ∈ ts, ¬ t.input.IsExit)
    (numbered : s.handles.Numbered) : s.handles.Extends s'.handles := by
  refine run.preserves (P := fun s' => s.handles.Extends s'.handles) ?_ (.refl numbered)
  intro t member happens extended
  exact extended.trans
    (happens.resumption.handles (kept t member) (alive t member) extended.numbered)

/-- What happens from a stop on until the front end asks for its end: `during` are the turns after
the one that stops, and `s` is the state after them. -/
structure DuringStop (stop : Turn) (during : List Turn) (s : SessionState) : Prop where
  stopped : stop.ownResumes = 0
  resumed : ∀ t ∈ during, t.LetsGo → t.ownResumes = 1
  stayed : ∀ t ∈ during, ¬ t.LetsGo → t.ownResumes = 0
  /-- When the stop is left alone. -/
  undisturbed : (∀ t ∈ during, t.ownResumes = 0) ↔ ∀ t ∈ during, ¬ t.LetsGo
  announced : ∀ t ∈ during, ∀ event, t.input = .notified event → ¬ event.CanStop →
    ¬ event.IsHeld t.before → t.ownResumes = 1
  numbers : (∀ t ∈ during, ¬ t.input.IsExit) → stop.after.handles.Extends s.handles

/-- A run resumes the target during a stop exactly in the turns that let it go on, once in each, and
no number that was handed out becomes bad by it. -/
theorem resumes_during_stop {config : SessionConfig} {front during : List Turn} {stop : Turn}
    {s : SessionState} (run : Runs possible (.start config) (front ++ stop :: during) s)
    (stops : stop.Stops) (kept : ∀ t ∈ during, ¬ t.input.EndsStop) :
    DuringStop stop during s := by
  obtain ⟨s', before, fromStop⟩ := runs_append_iff.mp run
  obtain ⟨rfl, happens, rest⟩ := runs_cons_iff.mp fromStop
  have numbered : stop.after.handles.Numbered :=
    happens.resumption.numbered (before.numbered HandleTable.numbered_empty)
  exact {
    stopped := (happens.resumption.stopped stops).count
    resumed := fun t member =>
      (rest.happens t member).ownResumes_of_letsGo (kept t member)
    stayed := fun t member =>
      (rest.happens t member).ownResumes_of_not_letsGo (kept t member)
    undisturbed := forall₂_congr fun t member =>
      (rest.happens t member).ownResumes_eq_zero_iff (kept t member)
    announced := fun t member event notified cannot other =>
      (rest.happens t member).ownResumes_of_letsGo (kept t member)
        ((rest.happens t member).letsGo_of_not_canStop notified cannot other)
    numbers := fun alive => rest.extends kept alive numbered }

section LateThread

/-- Every thread is in one frame of native code. -/
def oneFrame : (call : NativeCall) → call.Answer
  | .frames _ => [⟨.native, none, 0⟩]
  | _ => default

/-- Thread 1 stops by itself. -/
def userBreakTurn : Turn := (Input.notified (.userBreak 1)).turn oneFrame (.start {})

/-- The front end looks at the frames of the thread, and then a thread is announced. -/
def lateThread : List Turn :=
  turns oneFrame [.asked (.stackTrace 1 0 0), .notified (.threadCreated 2)] userBreakTurn.after

theorem runs_lateThread : Runs EvalOp.Succeeds (.start {}) ([] ++ userBreakTurn :: lateThread)
    (afterTurns userBreakTurn.after lateThread) :=
  .cons (happens_turn oneFrame _ _) (runs_turns oneFrame _ _)

theorem stops_userBreakTurn : userBreakTurn.Stops :=
  ⟨⟨1, .pause, some "Paused on Debugger.Break()", none⟩, none, List.mem_singleton.mpr rfl⟩

theorem lateThread_kept : ∀ t ∈ lateThread, ¬ t.input.EndsStop :=
  List.forall_mem_cons.mpr ⟨id, List.forall_mem_singleton.mpr id⟩

theorem duringStop_lateThread :
    userBreakTurn.Stops ∧ (∀ t ∈ lateThread, ¬ t.input.EndsStop) ∧
      DuringStop userBreakTurn lateThread (afterTurns userBreakTurn.after lateThread) :=
  ⟨stops_userBreakTurn, lateThread_kept,
    resumes_during_stop runs_lateThread stops_userBreakTurn lateThread_kept⟩

/-- A stop is not safe from resumes, nor do the numbers of its frames end with it. -/
theorem not_undisturbed_lateThread :
    Runs EvalOp.Succeeds (.start {}) ([] ++ userBreakTurn :: lateThread)
        (afterTurns userBreakTurn.after lateThread) ∧
      userBreakTurn.Stops ∧ (∀ t ∈ lateThread, ¬ t.input.EndsStop) ∧
      lateThread.map (·.ownResumes) = [0, 1] ∧
      (afterTurns userBreakTurn.after lateThread).handles.frame? 1 = some ⟨1, 0⟩ :=
  ⟨runs_lateThread, stops_userBreakTurn, lateThread_kept, rfl, rfl⟩

end LateThread

end Session

end ManagedDebugger
