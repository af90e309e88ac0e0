import ManagedDebugger.Proofs.Session.Turn
import ManagedDebugger.Proofs.Step.Exits

/-!
# Tasks that keep within bounds

Most of what a session does leaves alone its breakpoints, the step in flight and what it knows of
the start of the process, and arms nothing in the target. So a bound on what tasks may do that has
room for all this is kept by most of them, and whoever sets such a bound has to look at the few
others only.
-/

namespace ManagedDebugger

/-- A change of the state that is none of the breakpoints, of the step in flight, or of what is
known of the start of the process. -/
structure Inessential (s s' : SessionState) : Prop where
  breakpoints : s'.breakpoints = s.breakpoints
  step : s'.step = s.step
  configured : s'.process.configured = s.process.configured
  heldAtCreate : s'.process.heldAtCreate = s.process.heldAtCreate
  entryBreakpoint : s'.process.entryBreakpoint = s.process.entryBreakpoint

/-- A bound on what tasks may do, with room for what does not matter to it. -/
structure Bound (R : Transcript → SessionState → SessionState → Prop) : Prop where
  nil : ∀ s, R [] s s
  append : ∀ {first second s s' s''}, R first s s' → R second s' s'' → R (first ++ second) s s''
  told : ∀ event s, R [⟨.emit event, ()⟩] s s
  acquired : ∀ lock s, R [⟨.acquire lock, ()⟩] s s
  released : ∀ lock s, R [⟨.release lock, ()⟩] s s
  updated : ∀ f s, Inessential s (f s) → R [⟨.update f, s⟩] s (f s)
  evaluated : ∀ ops s, marks ops = [] → R (ops.map .ofEval) s s

/-- A program that only looks at the target arms nothing. -/
theorem Eval.Unarmed.ofInspects {α : Type} {p : Native α} (inspects : p.Inspects) :
    Unarmed p.run.evaluating := by
  intro es a played
  have orderly : Eval.Orderly false none 0 (Eval.ofNative p) := .ofNative inspects
  have unarmed := orderly.unarmed _ _ (played.bind (.done (Except.mapError EvalError.native a)))
  rwa [List.append_nil] at unarmed

theorem Eval.Unarmed.call {c : NativeCall} (harmless : c.arms = false) :
    Unarmed (Native.call c).run.evaluating :=
  .perform harmless fun _ => .done _

namespace Job

variable {possible : Exchange evalEffect → Prop}
  {R : Transcript → SessionState → SessionState → Prop} {α β : Type}

/-- Wherever it starts, the task keeps within a bound. -/
def Confined (possible : Exchange evalEffect → Prop)
    (R : Transcript → SessionState → SessionState → Prop) (p : SessionJob α) : Prop :=
  ∀ s, p.Ensures (alone possible) s fun es s' _ => R es s s'

namespace Confined

section Rules

variable (bound : Bound R)

include bound

theorem pure (a : α) : Confined possible R (Pure.pure a : SessionJob α) :=
  fun s => Program.ensures_done_iff.mpr (bound.nil s)

theorem bind {p : SessionJob α} {f : α → SessionJob β} (first : Confined possible R p)
    (second : ∀ a, Confined possible R (f a)) : Confined possible R (p >>= f) :=
  fun s => (first s).bind fun _ s' a left =>
    (second a s').mono fun _ _ _ right => bound.append left right

theorem map (f : α → β) {p : SessionJob α} (confined : Confined possible R p) :
    Confined possible R (f <$> p) :=
  .bind bound confined fun _ => .pure bound _

theorem update {f : SessionState → α × SessionState} (inessential : ∀ s, Inessential s (f s).2) :
    Confined possible R (Job.update f) :=
  fun s => ensures_update (bound.updated _ s (inessential s))

theorem emit (event : SessionEvent) : Confined possible R (Job.emit event) :=
  fun s => ensures_emit (bound.told event s)

theorem working {p : Program evalEffect α} (unarmed : Eval.Unarmed p) :
    Confined possible R p.working :=
  fun s => ensures_working fun ops _ a played _ => bound.evaluated ops s (unarmed ops a played)

theorem locked {lock : Lock} {p : SessionJob α} (inside : Confined possible R p) :
    Confined possible R (Job.locked lock p) := by
  intro s
  apply ensures_locked
  refine (inside s).mono fun es s' _ confined => ?_
  exact bound.append (bound.acquired lock s) (bound.append confined (bound.released lock s'))

/-- A task that may fail goes on only if its first part succeeds. -/
theorem run_bind {p : SessionWork α} {f : α → SessionWork β} (first : Confined possible R p.run)
    (second : ∀ a, Confined possible R (f a).run) : Confined possible R (p >>= f).run := by
  refine .bind bound first fun result => ?_
  cases result with
  | ok a => exact second a
  | error e => exact .pure bound _

theorem run_map (f : α → β) {p : SessionWork α} (confined : Confined possible R p.run) :
    Confined possible R (f <$> p).run :=
  .run_bind bound confined fun _ => .pure bound _

theorem ofJob {p : SessionJob α} (confined : Confined possible R p) :
    Confined possible R (Work.ofJob p).run :=
  .bind bound confined fun _ => .pure bound _

theorem native {p : Native α} (unarmed : Eval.Unarmed p.run.evaluating) :
    Confined possible R (Job.native p) :=
  .working bound unarmed

theorem ofNative {p : Native α} (inspects : p.Inspects) :
    Confined possible R (Work.ofNative p : SessionWork α).run :=
  .bind bound (.native bound (.ofInspects inspects)) fun _ => .pure bound _

theorem call {c : NativeCall} (harmless : c.arms = false) :
    Confined possible R (Work.native c : SessionWork c.Answer).run :=
  .bind bound (.native bound (.call harmless)) fun _ => .pure bound _

end Rules

end Confined

end Job

namespace Session

open Job

variable {possible : Exchange evalEffect → Prop}
  {R : Transcript → SessionState → SessionState → Prop} (bound : Bound R)

include bound

theorem confined_get : Confined possible R (Job.get : SessionJob SessionState) :=
  .update bound fun _ => ⟨rfl, rfl, rfl, rfl, rfl⟩

theorem confined_modifyProcess {f : ProcessState → ProcessState}
    (configured : ∀ p, (f p).configured = p.configured)
    (heldAtCreate : ∀ p, (f p).heldAtCreate = p.heldAtCreate)
    (entryBreakpoint : ∀ p, (f p).entryBreakpoint = p.entryBreakpoint) :
    Confined possible R (modifyProcess f) :=
  .update bound fun _ => ⟨rfl, rfl, configured _, heldAtCreate _, entryBreakpoint _⟩

theorem confined_setStatus (status : RunState) : Confined possible R (setStatus status) :=
  confined_modifyProcess bound (fun _ => rfl) (fun _ => rfl) fun _ => rfl

theorem confined_updateHandles {α : Type} (f : HandleTable → α × HandleTable) :
    Confined possible R (updateHandles f) :=
  .update bound fun _ => ⟨rfl, rfl, rfl, rfl, rfl⟩

theorem confined_evaluateAt (thread : ThreadId) (depth : UInt32) (text : String) :
    Confined possible R (evaluateAt thread depth text) :=
  .bind bound (confined_get bound) fun _ =>
    .working bound (Eval.orderly_evaluate _ text).unarmed

theorem confined_reportStop (stop : Stop) : Confined possible R (reportStop stop) := by
  have located : Confined possible R (topLocation stop.thread) := by
    refine .bind bound (.native bound (.call rfl)) fun frames => ?_
    cases frames with
    | ok frames => exact .bind bound (confined_get bound) fun _ => .pure bound _
    | error e => exact .pure bound none
  exact .bind bound (confined_setStatus bound _) fun _ =>
    .bind bound located fun _ => .emit bound _

theorem confined_inUserCode (thread : ThreadId) :
    Confined possible R (inUserCode thread).run := by
  refine .run_bind bound (.call bound rfl) fun frames => ?_
  split
  · exact .pure bound _
  · refine .run_bind bound (.ofJob bound (confined_get bound)) fun s => ?_
    split
    · exact .pure bound _
    · split
      · exact .run_bind bound (.call bound rfl) fun _ => .pure bound _
      · exact .pure bound _

theorem confined_isTrue (v : EvalValue) : Confined possible R (isTrue v) := by
  unfold isTrue
  split
  · exact .pure bound _
  · split
    · refine .bind bound (.native bound (.call rfl)) fun read => ?_
      cases read with
      | ok p => exact .pure bound _
      | error e => exact .pure bound _
    · exact .pure bound _
  · exact .pure bound _

theorem confined_holds (thread : ThreadId) (condition : Option String) :
    Confined possible R (holds thread condition) := by
  cases condition with
  | none => exact .pure bound true
  | some condition =>
      refine .bind bound (confined_evaluateAt bound thread 0 condition) fun result => ?_
      cases result with
      | ok result => exact confined_isTrue bound result.value
      | error e => exact .pure bound false

theorem confined_stopsAt (mode : ExceptionBreaks) (stage : ExceptionStage) (thread : ThreadId) :
    Confined possible R (stopsAt mode stage thread).run := by
  unfold stopsAt
  split
  · exact .pure bound _
  · exact .pure bound _
  · exact confined_inUserCode bound thread
  · exact confined_inUserCode bound thread
  · exact .pure bound _

theorem confined_reportChanged (changed : List BreakpointInfo) :
    Confined possible R (reportChanged changed) := by
  induction changed with
  | nil => exact .pure bound _
  | cons info rest inductionHypothesis =>
      exact .bind bound (.emit bound _) fun _ => inductionHypothesis

theorem confined_apply (action : Action) : Confined possible R (apply action) := by
  cases action with
  | resume => exact .bind bound (.native bound (.call rfl)) fun _ => .pure bound _
  | stop stop => exact confined_reportStop bound stop
  | hold => exact .pure bound _

/-- Whatever is decided, it is carried out within the bound. -/
theorem confined_handle {event : NativeEvent} (decides : Confined possible R (decide event).run) :
    Confined possible R (handle event) := by
  refine .bind bound decides fun decided => ?_
  cases decided with
  | ok action => exact confined_apply bound action
  | error e => exact confined_apply bound .resume

theorem confined_started (pid : UInt32) : Confined possible R (started pid) :=
  confined_modifyProcess bound (fun _ => rfl) (fun _ => rfl) fun _ => rfl

theorem confined_isLive : Confined possible R isLive :=
  .bind bound (confined_get bound) fun _ => .pure bound _

theorem confined_requireProcess : Confined possible R requireProcess.run := by
  refine .run_bind bound (.ofJob bound (confined_isLive bound)) fun live => ?_
  cases live with
  | true => exact .pure bound _
  | false => exact .pure bound _

theorem confined_resume : Confined possible R resume.run := by
  refine .run_bind bound (.ofJob bound (confined_updateHandles bound _)) fun _ => ?_
  refine .run_bind bound (.ofJob bound (confined_setStatus bound _)) fun _ => ?_
  exact .run_bind bound (.call bound rfl) fun _ => .ofJob bound (.emit bound _)

theorem confined_mapM {α β : Type} {f : α → SessionWork β}
    (each : ∀ a, Confined possible R (f a).run) (as : List α) :
    Confined possible R (as.mapM f).run := by
  induction as with
  | nil => exact .pure bound _
  | cons a rest inductionHypothesis =>
      rw [List.mapM_cons]
      exact .run_bind bound (each a) fun _ =>
        .run_bind bound inductionHypothesis fun _ => .pure bound _

theorem confined_stackTrace (thread : ThreadId) (start levels : Nat) :
    Confined possible R (stackTrace thread start levels).run := by
  have described (f : NativeFrame) : Confined possible R (describeFrame f).run := by
    unfold describeFrame
    split
    · exact .pure bound _
    · exact .run_bind bound (.call bound rfl) fun _ =>
        .run_bind bound (.ofJob bound (confined_get bound)) fun _ => .pure bound _
  refine .run_bind bound (.call bound rfl) fun frames => ?_
  refine .run_bind bound (confined_mapM bound (fun f => ?_) _) fun _ => ?_
  · exact .run_bind bound (described f.1) fun _ => .pure bound _
  · exact .ofJob bound (confined_updateHandles bound _)

theorem confined_frame (id : Int) : Confined possible R (frame id).run := by
  refine .run_bind bound (.ofJob bound (confined_get bound)) fun s => ?_
  split
  · exact .pure bound _
  · exact .pure bound _

theorem confined_children (reference : Int) (start count : Nat) :
    Confined possible R (children reference start count).run := by
  refine .run_bind bound (.ofJob bound (confined_get bound)) fun s => ?_
  split
  · exact .pure bound _
  · refine .run_bind (p := Work.ofEval _) bound ?_ fun _ => ?_
    · refine .bind bound (.working bound ?_) fun _ => .pure bound _
      exact (Eval.orderly_expand _ _ _ _ _).unarmed
    · exact .ofJob bound (confined_updateHandles bound _)

theorem confined_evaluate (expression : String) (id : Option Int) :
    Confined possible R (evaluate expression id).run := by
  have chosen : Confined possible R (evaluationFrame id).run := by
    cases id with
    | some id => exact confined_frame bound id
    | none =>
        refine .run_bind bound (.ofJob bound (confined_get bound)) fun s => ?_
        split
        · exact .pure bound _
        · exact .pure bound _
  have settled (r : Except EvalError Evaluated) : Confined possible R (evaluated r).run := by
    unfold evaluated
    split
    · exact .pure bound _
    · exact .pure bound _
    · exact .pure bound _
  refine .run_bind bound chosen fun f => ?_
  refine .run_bind bound (.ofJob bound (confined_evaluateAt bound _ _ _)) fun result => ?_
  refine .run_bind bound (settled result) fun found => ?_
  dsimp only
  split
  · refine .run_bind bound (.ofNative bound (Native.inspects_describeValue _ _ _ _)) fun _ => ?_
    exact .run_bind bound (.ofJob bound (confined_updateHandles bound _)) fun _ => .pure bound _
  · exact .run_bind bound (.ofNative bound (Native.inspects_display _)) fun _ => .pure bound _

/-! Tasks that work on the breakpoints, if this much of them is within the bound. -/

theorem confined_onModuleLoaded (module : ModuleInfo)
    (binds : Confined possible R
      (onBreakpoints fun symbols r => r.moduleLoaded symbols module.id))
    (enters : Confined possible R (breakAtEntry module.id).run) :
    Confined possible R (onModuleLoaded module).run := by
  refine .run_bind bound (.call bound rfl) fun symbols => ?_
  have announced : Confined possible R (do
      Work.ofJob (modifyProcess fun p => { p with modules := p.modules ++ [module] })
      let changed ← Work.ofJob (onBreakpoints fun symbols r => r.moduleLoaded symbols module.id)
      breakAtEntry module.id
      Work.ofJob (Job.emit (.moduleLoaded module.name module.path))
      Work.ofJob (reportChanged changed)
      return Action.resume : SessionWork Action).run := by
    refine .run_bind bound (.ofJob bound ?_) fun _ => ?_
    · exact confined_modifyProcess bound (fun _ => rfl) (fun _ => rfl) fun _ => rfl
    · refine .run_bind bound (.ofJob bound binds) fun changed => ?_
      refine .run_bind bound enters fun _ => ?_
      refine .run_bind bound (.ofJob bound (.emit bound _)) fun _ => ?_
      exact .run_bind bound (.ofJob bound (confined_reportChanged bound changed)) fun _ =>
        .pure bound _
  cases symbols with
  | none => exact announced
  | some symbols =>
      refine .run_bind bound (.ofJob bound ?_) fun _ => announced
      exact .update bound fun _ => ⟨rfl, rfl, rfl, rfl, rfl⟩

theorem confined_onModuleUnloaded (module : ModuleId)
    (unbinds : Confined possible R (onBreakpoints fun _ r => pure (r.moduleUnloaded module))) :
    Confined possible R (onModuleUnloaded module) := by
  refine .bind bound ?_ fun _ => .bind bound ?_ fun _ => ?_
  · exact confined_modifyProcess bound (fun _ => rfl) (fun _ => rfl) fun _ => rfl
  · exact .update bound fun _ => ⟨rfl, rfl, rfl, rfl, rfl⟩
  · exact .bind bound unbinds fun changed =>
      .bind bound (confined_reportChanged bound changed) fun _ => .pure bound _

theorem confined_setBreakpoints (file : String) (requests : List BreakpointRequest)
    (sets : ∀ modules, Confined possible R
      (onBreakpoints fun symbols r => r.setBreakpoints symbols modules file requests)) :
    Confined possible R (setBreakpoints file requests) :=
  .bind bound (confined_get bound) fun _ => sets _

/-! Tasks that have to do with the step in flight. -/

variable (cancels : Confined possible R cancelStep)

include cancels

theorem confined_onProcessExited (code : Int32) :
    Confined possible R (onProcessExited code) := by
  refine .bind bound (confined_setStatus bound _) fun _ => ?_
  refine .bind bound (confined_updateHandles bound _) fun _ => ?_
  refine .bind bound cancels fun _ => .bind bound (.emit bound _) fun _ => ?_
  exact .bind bound (.emit bound _) fun _ => .pure bound _

theorem confined_onException (thread : ThreadId) (stage : ExceptionStage)
    (exception : RemoteValue) :
    Confined possible R (onException thread stage exception).run := by
  refine .run_bind bound (.ofJob bound (confined_get bound)) fun s => ?_
  refine .run_bind bound (confined_stopsAt bound _ stage thread) fun stops => ?_
  cases stops with
  | false => exact .pure bound _
  | true => exact .run_bind bound (.ofJob bound cancels) fun _ => .pure bound _

theorem confined_pause : Confined possible R pause.run := by
  refine .run_bind bound (confined_requireProcess bound) fun _ => ?_
  refine .run_bind bound (.call bound rfl) fun _ => ?_
  refine .run_bind bound (.ofJob bound cancels) fun _ => ?_
  exact .run_bind bound (.call bound rfl) fun _ => .ofJob bound (confined_reportStop bound _)

theorem confined_terminate : Confined possible R terminate.run := by
  refine .run_bind bound (confined_requireProcess bound) fun _ => ?_
  exact .run_bind bound (.ofJob bound cancels) fun _ => .call bound rfl

theorem confined_disconnect (kill : Bool) : Confined possible R (disconnect kill) := by
  refine .bind bound (confined_isLive bound) fun live => ?_
  cases live with
  | false => exact .pure bound _
  | true =>
      refine .bind bound cancels fun _ => .bind bound (confined_updateHandles bound _) fun _ => ?_
      refine .bind bound (.native bound (.call ?_)) fun _ => .pure bound _
      cases kill <;> rfl

/-- What is left to look at for an input: the tasks that do more than any bound has room for. -/
def Input.Remains (possible : Exchange evalEffect → Prop)
    (R : Transcript → SessionState → SessionState → Prop) : Input → Prop
  | notified (.processCreated pid) => Confined possible R (onProcessCreated pid)
  | notified (.moduleLoaded module) => Confined possible R (onModuleLoaded module).run
  | notified (.moduleUnloaded module) => Confined possible R (onModuleUnloaded module)
  | notified (.breakpointHit thread b) => Confined possible R (onBreakpointHit thread b).run
  | notified (.stepComplete thread reason) => Confined possible R (onStepComplete thread reason).run
  | asked .configurationDone => Confined possible R configurationDone.run
  | asked (.setBreakpoints file requests) => Confined possible R (setBreakpoints file requests)
  | asked (.step kind thread) =>
    Confined possible R (onStep fun ctx => Step.start ctx thread kind)
  | _ => True

theorem confined_notified (event : NativeEvent)
    (remains : (Input.notified event).Remains possible R) :
    Confined possible R (decide event).run := by
  cases event with
  | processCreated pid => exact .ofJob bound remains
  | processExited code => exact .ofJob bound (confined_onProcessExited bound cancels code)
  | domainCreated => exact .pure bound _
  | threadCreated thread =>
      exact .ofJob bound (.bind bound (.emit bound _) fun _ => .pure bound _)
  | threadExited thread =>
      exact .ofJob bound (.bind bound (.emit bound _) fun _ => .pure bound _)
  | moduleLoaded module => exact remains
  | moduleUnloaded module => exact .ofJob bound remains
  | breakpointHit thread b => exact remains
  | stepComplete thread reason => exact remains
  | userBreak thread => exact .ofJob bound (.bind bound cancels fun _ => .pure bound _)
  | exception thread stage v => exact confined_onException bound cancels thread stage v
  | evalComplete thread eval result => exact .pure bound _
  | evalException thread eval value => exact .pure bound _

theorem confined_asked (request : SessionRequest)
    (remains : (Input.asked request).Remains possible R) :
    Confined possible R request.work.run := by
  cases request with
  | configurationDone => exact .run_bind bound remains fun _ => .pure bound _
  | setBreakpoints source breakpoints =>
      exact .run_bind bound (.ofJob bound remains) fun _ => .pure bound _
  | continue_ =>
      have continued : Confined possible R continue_.run :=
        .run_bind bound (confined_requireProcess bound) fun _ => confined_resume bound
      exact .run_bind bound continued fun _ => .pure bound _
  | pause => exact .run_bind bound (confined_pause bound cancels) fun _ => .pure bound _
  | step kind thread =>
      have stepped : Confined possible R (step thread kind).run := by
        refine .run_bind bound (confined_requireProcess bound) fun _ => ?_
        exact .run_bind (p := ExceptT.mk (onStep fun ctx => Step.start ctx thread kind)) bound
          remains fun _ => confined_resume bound
      exact .run_bind bound stepped fun _ => .pure bound _
  | threads =>
      have listed : Confined possible R threads.run :=
        .run_bind bound (.call bound rfl) fun _ => .pure bound _
      exact .run_bind bound listed fun _ => .pure bound _
  | stackTrace thread start levels =>
      exact .run_bind bound (confined_stackTrace bound thread start levels) fun _ => .pure bound _
  | scopes id =>
      have listed : Confined possible R (scopes id).run :=
        .run_bind bound (confined_frame bound id) fun _ =>
          .ofJob bound (confined_updateHandles bound _)
      exact .run_bind bound listed fun _ => .pure bound _
  | children reference start count =>
      exact .run_bind bound (confined_children bound reference start count) fun _ => .pure bound _
  | evaluate expression id =>
      exact .run_bind bound (confined_evaluate bound expression id) fun _ => .pure bound _
  | terminate => exact .run_bind bound (confined_terminate bound cancels) fun _ => .pure bound _

theorem confined_task (input : Input) (remains : input.Remains possible R) :
    Confined possible R input.task := by
  cases input with
  | notified event =>
      exact .map bound _ (confined_handle bound (confined_notified bound cancels event remains))
  | launch request =>
      have launched : Confined possible R (Session.launch request).run :=
        .run_bind bound (.call bound rfl) fun pid =>
          .run_bind bound (.ofJob bound (confined_started bound pid)) fun _ => .pure bound _
      exact .run_map bound _ launched
  | attach pid =>
      have attached : Confined possible R (Session.attach pid).run :=
        .run_bind bound (.call bound rfl) fun _ => .ofJob bound (confined_started bound pid)
      exact .run_map bound _ attached
  | asked request => exact confined_asked bound cancels request remains
  | disconnect kill => exact .map bound _ (confined_disconnect bound cancels kill)

theorem Turn.Happens.confined {t : Turn} (happens : t.Happens possible)
    (remains : t.input.Remains possible R) : R t.transcript t.before t.after :=
  happens.ensured (confined_task bound cancels t.input remains t.before)

end Session

end ManagedDebugger
