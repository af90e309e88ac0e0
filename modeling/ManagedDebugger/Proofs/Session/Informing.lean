import ManagedDebugger.Proofs.Breakpoint.Picture
import ManagedDebugger.Proofs.Session.Unobtrusive
import ManagedDebugger.Server.Response

/-!
# Tasks that tell all about breakpoints

A task keeps the front end informed if the changes of breakpoints that it tells of are all that
became of them. Next to nothing that a session does touches the breakpoints at all. What does is to
count a hit, which is no change of the status, and to take back the breakpoints of a module that is
gone. The requests for breakpoints and the modules that are loaded are looked at elsewhere.
-/

namespace ManagedDebugger

/-- The changes of breakpoints that the front end is told of. -/
def Transcript.changed (es : Transcript) : List BreakpointInfo :=
  (emitted es).filterMap fun
    | .breakpointChanged info => some info
    | _ => none

@[simp]
theorem Transcript.changed_append (first second : Transcript) :
    Transcript.changed (first ++ second) = first.changed ++ second.changed := by
  simp [changed]

theorem Transcript.changed_of_silent {es : Transcript} (silent : emitted es = []) :
    es.changed = [] := by
  simp [changed, silent]

/-- Between two states, the front end is told of all that becomes of the breakpoints. -/
def Informs (es : Transcript) (s s' : SessionState) : Prop :=
  s.breakpoints.Tells es.changed s'.breakpoints

namespace Informs

theorem silent {es : Transcript} {s s' : SessionState} (silent : es.changed = [])
    (same : s'.breakpoints = s.breakpoints) : Informs es s s' := by
  rw [Informs, silent, same]
  exact .refl _

theorem append {first second : Transcript} {s s' s'' : SessionState} (left : Informs first s s')
    (right : Informs second s' s'') : Informs (first ++ second) s s'' := by
  rw [Informs, Transcript.changed_append]
  exact left.trans right

end Informs

namespace Job

variable {possible : Exchange evalEffect → Prop} {α β : Type}

/-- Wherever it starts, the task keeps the front end informed. -/
def Informing (possible : Exchange evalEffect → Prop) (p : SessionJob α) : Prop :=
  ∀ s, p.Ensures (alone possible) s fun es s' _ => Informs es s s'

namespace Informing

theorem pure (a : α) : Informing possible (Pure.pure a : SessionJob α) :=
  fun _ => Program.ensures_done_iff.mpr (.silent rfl rfl)

theorem bind {p : SessionJob α} {f : α → SessionJob β} (first : Informing possible p)
    (second : ∀ a, Informing possible (f a)) : Informing possible (p >>= f) :=
  fun s => (first s).bind fun _ s' a left =>
    (second a s').mono fun _ _ _ right => left.append right

theorem map (f : α → β) {p : SessionJob α} (informs : Informing possible p) :
    Informing possible (f <$> p) :=
  .bind informs fun _ => .pure _

theorem update {f : SessionState → α × SessionState}
    (same : ∀ s, (f s).2.breakpoints = s.breakpoints) : Informing possible (Job.update f) :=
  fun s => ensures_update (.silent rfl (same s))

theorem emit {event : SessionEvent} (other : ∀ info, event ≠ .breakpointChanged info) :
    Informing possible (Job.emit event) := by
  refine fun s => ensures_emit (.silent ?_ rfl)
  cases event with
  | breakpointChanged info => exact absurd rfl (other info)
  | _ => rfl

theorem working (p : Program evalEffect α) : Informing possible p.working :=
  fun _ => ensures_working fun ops _ _ _ _ =>
    .silent (Transcript.changed_of_silent (emitted_map_ofEval ops)) rfl

theorem locked {lock : Lock} {p : SessionJob α} (inside : Informing possible p) :
    Informing possible (Job.locked lock p) := by
  refine fun s => ensures_locked ((inside s).mono fun es s' _ informs => ?_)
  have acquired : Informs [⟨.acquire lock, ()⟩] s s := .silent rfl rfl
  have released : Informs [⟨.release lock, ()⟩] s' s' := .silent rfl rfl
  exact acquired.append (informs.append released)

theorem native (p : Native α) : Informing possible (Job.native p) := .working _

/-- A task that may fail goes on only if its first part succeeds. -/
theorem run_bind {p : SessionWork α} {f : α → SessionWork β} (first : Informing possible p.run)
    (second : ∀ a, Informing possible (f a).run) : Informing possible (p >>= f).run := by
  refine .bind first fun result => ?_
  cases result with
  | ok a => exact second a
  | error e => exact .pure _

theorem run_map (f : α → β) {p : SessionWork α} (informs : Informing possible p.run) :
    Informing possible (f <$> p).run :=
  .run_bind informs fun _ => .pure _

theorem ofJob {p : SessionJob α} (informs : Informing possible p) :
    Informing possible (Work.ofJob p).run :=
  .bind informs fun _ => .pure _

theorem ofNative (p : Native α) : Informing possible (Work.ofNative p : SessionWork α).run :=
  .bind (.native p) fun _ => .pure _

theorem ofEval (p : Eval α) : Informing possible (Work.ofEval p : SessionWork α).run :=
  .bind (.working _) fun _ => .pure _

theorem call (c : NativeCall) : Informing possible (Work.native c : SessionWork c.Answer).run :=
  .ofNative _

end Informing

end Job

namespace Session

open Job

variable {possible : Exchange evalEffect → Prop}

theorem informing_get : Informing possible (Job.get : SessionJob SessionState) :=
  .update fun _ => rfl

theorem informing_modifyProcess (f : ProcessState → ProcessState) :
    Informing possible (modifyProcess f) :=
  .update fun _ => rfl

theorem informing_updateHandles {α : Type} (f : HandleTable → α × HandleTable) :
    Informing possible (updateHandles f) :=
  .update fun _ => rfl

theorem informing_onStep {α : Type} (p : StepContext → Stepping α) :
    Informing possible (onStep p) := by
  refine .bind informing_get fun s => .locked (.bind informing_get fun before => ?_)
  exact .bind (.working _) fun ended => .bind (.update fun _ => rfl) fun _ => .pure ended.1

/-- The step controller at work for a task that may fail. -/
theorem informing_workStep {α : Type} (p : StepContext → Stepping α) :
    Informing possible (ExceptT.mk (onStep p) : SessionWork α).run :=
  informing_onStep p

theorem informing_cancelStep : Informing possible cancelStep :=
  .bind (informing_onStep _) fun _ => .pure _

theorem informing_evaluateAt (thread : ThreadId) (depth : UInt32) (text : String) :
    Informing possible (evaluateAt thread depth text) :=
  .bind informing_get fun _ => .working _

theorem informing_reportStop (stop : Stop) : Informing possible (reportStop stop) := by
  have located : Informing possible (topLocation stop.thread) := by
    refine .bind (.native _) fun frames => ?_
    cases frames with
    | ok frames => exact .bind informing_get fun _ => .pure _
    | error e => exact .pure none
  exact .bind (informing_modifyProcess _) fun _ => .bind located fun _ => .emit nofun

theorem informing_inUserCode (thread : ThreadId) : Informing possible (inUserCode thread).run := by
  refine .run_bind (.call _) fun frames => ?_
  split
  · exact .pure _
  · refine .run_bind (.ofJob informing_get) fun s => ?_
    split
    · exact .pure _
    · split
      · exact .run_bind (.call _) fun _ => .pure _
      · exact .pure _

/-! The breakpoints themselves. -/

/-- A change of the breakpoints, and of nothing else of the state. -/
theorem ensures_onBreakpoints {α : Type}
    {p : SymbolTable → BreakpointRegistry → Program nativeEffect (α × BreakpointRegistry)}
    {s : SessionState} {P : α → BreakpointRegistry → Prop}
    (returns : (p s.symbols s.breakpoints).Returns fun found => P found.1 found.2) :
    (onBreakpoints p).Ensures (alone possible) s fun es s' a =>
      emitted es = [] ∧ ∃ r, P a r ∧ s' = { s with breakpoints := r } := by
  refine ensures_locked (update_bind ?_)
  refine Program.Ensures.bind (P := fun es s' found =>
    emitted es = [] ∧ P found.1 found.2 ∧ s' = s) (ensures_working ?_) ?_
  · intro ops _ found played _
    obtain ⟨calls, asked, rfl⟩ := Program.plays_evaluating_iff.mp played
    exact ⟨emitted_map_ofEval _, returns calls found asked, rfl⟩
  · intro es s' found holds
    obtain ⟨silent, given, rfl⟩ := holds
    refine update_bind (Program.ensures_done_iff.mpr ⟨?_, found.2, given, rfl⟩)
    simpa [emitted] using silent

/-- Work on the breakpoints of which nothing has to be told. -/
theorem informing_onBreakpoints {α : Type}
    {p : SymbolTable → BreakpointRegistry → Program nativeEffect (α × BreakpointRegistry)}
    (quiet : ∀ symbols r, (p symbols r).Returns fun found => r.Tells [] found.2) :
    Informing possible (onBreakpoints p) := by
  refine fun s => (ensures_onBreakpoints
    (P := fun _ r => s.breakpoints.Tells [] r) (quiet _ _)).mono ?_
  intro es _ _ holds
  obtain ⟨silent, r, tells, rfl⟩ := holds
  rw [Informs, Transcript.changed_of_silent silent]
  exact tells

/-- What the front end is told of is what it is given to tell. -/
theorem ensures_reportChanged (infos : List BreakpointInfo) (s : SessionState) :
    (reportChanged infos).Ensures (alone possible) s fun es s' _ =>
      Transcript.changed es = infos ∧ s' = s := by
  induction infos with
  | nil => exact Program.ensures_done_iff.mpr ⟨rfl, rfl⟩
  | cons info rest inductionHypothesis =>
      refine emit_bind (inductionHypothesis.mono fun es s' _ holds => ?_)
      obtain ⟨told, same⟩ := holds
      exact ⟨congrArg (info :: ·) told, same⟩

theorem informing_onModuleUnloaded (module : ModuleId) :
    Informing possible (onModuleUnloaded module) := by
  refine .bind (informing_modifyProcess _) fun _ => .bind (.update fun _ => rfl) fun _ => ?_
  intro s
  have taken : (pure (s.breakpoints.moduleUnloaded module) : Program nativeEffect _).Returns
      fun found => s.breakpoints.Tells found.1 found.2 :=
    Program.returns_done (s.breakpoints.tells_moduleUnloaded module)
  refine (ensures_onBreakpoints (P := fun infos r => s.breakpoints.Tells infos r) taken).bind ?_
  intro es _ infos holds
  obtain ⟨silent, r, tells, rfl⟩ := holds
  refine (ensures_reportChanged infos _).bind fun more _ _ reported => ?_
  obtain ⟨told, rfl⟩ := reported
  refine Program.ensures_done_iff.mpr ?_
  rw [Informs, List.append_nil, Transcript.changed_append, Transcript.changed_of_silent silent,
    told]
  exact tells

/-! The other notifications. -/

theorem informing_onProcessCreated (pid : UInt32) : Informing possible (onProcessCreated pid) :=
  .bind (.update fun _ => rfl) fun _ => .pure _

theorem informing_onProcessExited (code : Int32) :
    Informing possible (onProcessExited code) := by
  refine .bind (informing_modifyProcess _) fun _ => .bind (informing_updateHandles _) fun _ => ?_
  refine .bind informing_cancelStep fun _ => .bind (.emit nofun) fun _ => ?_
  exact .bind (.emit nofun) fun _ => .pure _

theorem informing_isTrue (v : EvalValue) : Informing possible (isTrue v) := by
  unfold isTrue
  split
  · exact .pure _
  · split
    · refine .bind (.native _) fun read => ?_
      cases read with
      | ok p => exact .pure _
      | error e => exact .pure _
    · exact .pure _
  · exact .pure _

theorem informing_holds (thread : ThreadId) (condition : Option String) :
    Informing possible (holds thread condition) := by
  cases condition with
  | none => exact .pure true
  | some condition =>
      refine .bind (informing_evaluateAt thread 0 condition) fun result => ?_
      cases result with
      | ok result => exact informing_isTrue result.value
      | error e => exact .pure false

theorem informing_onUserBreakpoint (thread : ThreadId) (handle : NativeBreakpointId) :
    Informing possible (onUserBreakpoint thread handle) := by
  have found : Informing possible (onBreakpoints fun _ r => pure (r.byHandle? handle, r)) :=
    informing_onBreakpoints fun _ r => Program.returns_done (.refl r)
  refine .bind found fun hit => ?_
  cases hit with
  | none => exact .pure _
  | some b =>
      have counted : Informing possible (onBreakpoints fun _ r => pure (r.recordHit b.id)) :=
        informing_onBreakpoints fun _ r => Program.returns_done (r.tells_recordHit b.id)
      refine .bind (informing_holds thread b.condition) fun holds => ?_
      cases holds with
      | false => exact .pure _
      | true =>
          refine .bind counted fun stops => ?_
          cases stops with
          | false => exact .pure _
          | true => exact .bind informing_cancelStep fun _ => .pure _

theorem informing_onBreakpointHit (thread : ThreadId) (hit : NativeBreakpointId) :
    Informing possible (onBreakpointHit thread hit).run := by
  have taken : Informing possible (takeEntryBreakpoint hit) := by
    refine .update fun s => ?_
    dsimp only
    split <;> rfl
  refine .run_bind (.ofJob taken) fun entry => ?_
  cases entry with
  | true => exact .run_bind (.call _) fun _ => .pure _
  | false =>
      refine .run_bind (informing_workStep _) fun outcome => ?_
      cases outcome with
      | some outcome => exact .pure _
      | none => exact .ofJob (informing_onUserBreakpoint thread hit)

theorem informing_onStepComplete (thread : ThreadId) (reason : StepReason) :
    Informing possible (onStepComplete thread reason).run :=
  .run_bind (informing_workStep _) fun _ => .pure _

theorem informing_stopsAt (mode : ExceptionBreaks) (stage : ExceptionStage) (thread : ThreadId) :
    Informing possible (stopsAt mode stage thread).run := by
  unfold stopsAt
  split
  · exact .pure _
  · exact .pure _
  · exact informing_inUserCode thread
  · exact informing_inUserCode thread
  · exact .pure _

theorem informing_onException (thread : ThreadId) (stage : ExceptionStage)
    (exception : RemoteValue) : Informing possible (onException thread stage exception).run := by
  refine .run_bind (.ofJob informing_get) fun s => ?_
  refine .run_bind (informing_stopsAt _ stage thread) fun stops => ?_
  cases stops with
  | false => exact .pure _
  | true => exact .run_bind (.ofJob informing_cancelStep) fun _ => .pure _

theorem informing_apply (action : Action) : Informing possible (apply action) := by
  cases action with
  | resume => exact .bind (.native _) fun _ => .pure _
  | stop stop => exact informing_reportStop stop
  | hold => exact .pure _

/-- Whatever is decided is carried out without a word about breakpoints. -/
theorem informing_carryOut (decided : Except EngineError Action) :
    Informing possible (match decided with
      | .ok action => apply action
      | .error _ => apply .resume) := by
  cases decided with
  | ok action => exact informing_apply action
  | error e => exact informing_apply .resume

theorem informing_notified {event : NativeEvent}
    (other : ∀ module, event ≠ .moduleLoaded module) : Informing possible (handle event) := by
  suffices decides : Informing possible (decide event).run from
    .bind decides informing_carryOut
  cases event with
  | processCreated pid => exact .ofJob (informing_onProcessCreated pid)
  | processExited code => exact .ofJob (informing_onProcessExited code)
  | domainCreated => exact .pure _
  | threadCreated thread => exact .ofJob (.bind (.emit nofun) fun _ => .pure _)
  | threadExited thread => exact .ofJob (.bind (.emit nofun) fun _ => .pure _)
  | moduleLoaded module => exact absurd rfl (other module)
  | moduleUnloaded module => exact .ofJob (informing_onModuleUnloaded module)
  | breakpointHit thread b => exact informing_onBreakpointHit thread b
  | stepComplete thread reason => exact informing_onStepComplete thread reason
  | userBreak thread => exact .ofJob (.bind informing_cancelStep fun _ => .pure _)
  | exception thread stage v => exact informing_onException thread stage v
  | evalComplete thread eval result => exact .pure _
  | evalException thread eval value => exact .pure _

/-! The requests. -/

theorem informing_started (pid : UInt32) : Informing possible (started pid) :=
  informing_modifyProcess _

theorem informing_configurationDone : Informing possible configurationDone.run := by
  refine .run_bind (.ofJob (.update fun _ => rfl)) fun held => ?_
  cases held with
  | true => exact .call _
  | false => exact .pure _

theorem informing_isLive : Informing possible isLive :=
  .bind informing_get fun _ => .pure _

theorem informing_requireProcess : Informing possible requireProcess.run := by
  refine .run_bind (.ofJob informing_isLive) fun live => ?_
  cases live with
  | true => exact .pure _
  | false => exact .pure _

theorem informing_resume : Informing possible resume.run := by
  refine .run_bind (.ofJob (informing_updateHandles _)) fun _ => ?_
  refine .run_bind (.ofJob (informing_modifyProcess _)) fun _ => ?_
  exact .run_bind (.call _) fun _ => .ofJob (.emit nofun)

theorem informing_pause : Informing possible pause.run := by
  refine .run_bind informing_requireProcess fun _ => .run_bind (.call _) fun _ => ?_
  refine .run_bind (.ofJob informing_cancelStep) fun _ => .run_bind (.call _) fun threads => ?_
  exact .ofJob (informing_reportStop _)

theorem informing_step (thread : ThreadId) (kind : StepKind) :
    Informing possible (step thread kind).run := by
  refine .run_bind informing_requireProcess fun _ => ?_
  exact .run_bind (informing_workStep _) fun _ => informing_resume

theorem informing_mapM {α β : Type} {f : α → SessionWork β}
    (each : ∀ a, Informing possible (f a).run) (as : List α) :
    Informing possible (as.mapM f).run := by
  induction as with
  | nil => exact .pure _
  | cons a rest inductionHypothesis =>
      rw [List.mapM_cons]
      exact .run_bind (each a) fun _ => .run_bind inductionHypothesis fun _ => .pure _

theorem informing_stackTrace (thread : ThreadId) (start levels : Nat) :
    Informing possible (stackTrace thread start levels).run := by
  have described (f : NativeFrame) : Informing possible (describeFrame f).run := by
    unfold describeFrame
    split
    · exact .pure _
    · exact .run_bind (.call _) fun _ => .run_bind (.ofJob informing_get) fun _ => .pure _
  refine .run_bind (.call _) fun frames => .run_bind (informing_mapM (fun f => ?_) _) fun _ => ?_
  · exact .run_bind (described f.1) fun _ => .pure _
  · exact .ofJob (informing_updateHandles _)

theorem informing_frame (id : Int) : Informing possible (frame id).run := by
  refine .run_bind (.ofJob informing_get) fun s => ?_
  split
  · exact .pure _
  · exact .pure _

theorem informing_children (reference : Int) (start count : Nat) :
    Informing possible (children reference start count).run := by
  refine .run_bind (.ofJob informing_get) fun s => ?_
  split
  · exact .pure _
  · exact .run_bind (.ofEval _) fun _ => .ofJob (informing_updateHandles _)

theorem informing_evaluate (expression : String) (id : Option Int) :
    Informing possible (evaluate expression id).run := by
  have chosen : Informing possible (evaluationFrame id).run := by
    cases id with
    | some id => exact informing_frame id
    | none =>
        refine .run_bind (.ofJob informing_get) fun s => ?_
        split
        · exact .pure _
        · exact .pure _
  have settled (r : Except EvalError Evaluated) : Informing possible (evaluated r).run := by
    unfold evaluated
    split
    · exact .pure _
    · exact .pure _
    · exact .pure _
  refine .run_bind chosen fun f => .run_bind (.ofJob (informing_evaluateAt _ _ _)) fun result => ?_
  refine .run_bind (settled result) fun found => ?_
  dsimp only
  split
  · refine .run_bind (.ofNative _) fun pending => ?_
    exact .run_bind (.ofJob (informing_updateHandles _)) fun _ => .pure _
  · exact .run_bind (.ofNative _) fun _ => .pure _

theorem informing_terminate : Informing possible terminate.run := by
  refine .run_bind informing_requireProcess fun _ => ?_
  exact .run_bind (.ofJob informing_cancelStep) fun _ => .call _

theorem informing_disconnect (kill : Bool) : Informing possible (disconnect kill) := by
  refine .bind informing_isLive fun live => ?_
  cases live with
  | false => exact .pure _
  | true =>
      refine .bind informing_cancelStep fun _ => .bind (informing_updateHandles _) fun _ => ?_
      exact .bind (.native _) fun _ => .pure _

theorem informing_asked {request : SessionRequest}
    (other : ∀ source breakpoints, request ≠ .setBreakpoints source breakpoints) :
    Informing possible request.work.run := by
  cases request with
  | configurationDone => exact .run_bind informing_configurationDone fun _ => .pure _
  | setBreakpoints source breakpoints => exact absurd rfl (other source breakpoints)
  | continue_ =>
      have continued : Informing possible continue_.run :=
        .run_bind informing_requireProcess fun _ => informing_resume
      exact .run_bind continued fun _ => .pure _
  | pause => exact .run_bind informing_pause fun _ => .pure _
  | step kind thread => exact .run_bind (informing_step thread kind) fun _ => .pure _
  | threads =>
      have listed : Informing possible threads.run := .run_bind (.call _) fun _ => .pure _
      exact .run_bind listed fun _ => .pure _
  | stackTrace thread start levels =>
      exact .run_bind (informing_stackTrace thread start levels) fun _ => .pure _
  | scopes id =>
      have listed : Informing possible (scopes id).run :=
        .run_bind (informing_frame id) fun _ => .ofJob (informing_updateHandles _)
      exact .run_bind listed fun _ => .pure _
  | children reference start count =>
      exact .run_bind (informing_children reference start count) fun _ => .pure _
  | evaluate expression id => exact .run_bind (informing_evaluate expression id) fun _ => .pure _
  | terminate => exact .run_bind informing_terminate fun _ => .pure _

end Session

end ManagedDebugger
