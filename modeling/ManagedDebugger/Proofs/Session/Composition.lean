import ManagedDebugger.Proofs.Eval.Orderly.Interpreter
import ManagedDebugger.Proofs.Session.Task
import ManagedDebugger.Proofs.Step.Outcome
import ManagedDebugger.Session.Dispatcher

/-!
# What the handling of a notification is put together from

To handle a notification the dispatcher reads and changes the state, tells the front end, works on
the breakpoints and on the step in flight under their locks, and evaluates. It calls the target for
many things, but never to begin or to end the work on a process. A property of tasks that all this
keeps is one of the handling of every notification.
-/

namespace ManagedDebugger

variable {α β : Type}

/-- Calls that begin or end the work on a process. -/
def NativeCall.isMilestone : NativeCall → Bool
  | launch _ | attach _ | detach | terminate => true
  | _ => false

namespace EvalOp

/-- No milestone, either. -/
def isQuiet : EvalOp → Bool
  | native c => !c.isMilestone
  | register .. | cancel _ | wait .. => true

theorem isQuiet_of_evaluates {op : EvalOp} (evaluates : op.evaluates = true) :
    op.isQuiet = true := by
  cases op with
  | native c => cases c <;> first | rfl | cases evaluates
  | register eval thread => rfl
  | cancel eval => rfl
  | wait ticket limit => rfl

end EvalOp

theorem NativeCall.isQuiet_of_steps {c : NativeCall} (steps : c.steps = true) :
    (EvalOp.native c).isQuiet = true := by
  cases c <;> first | rfl | cases steps

/-- Whatever is replied, a program calls the target for no milestone. -/
abbrev Program.Quiet (p : Program nativeEffect α) : Prop := p.Only fun c => c.isMilestone = false

theorem Program.Quiet.evaluating {p : Program nativeEffect α} (quiet : p.Quiet) :
    p.evaluating.Only fun op => op.isQuiet = true := by
  intro es a evaluated x among
  obtain ⟨calls, played, rfl⟩ := plays_evaluating_iff.mp evaluated
  obtain ⟨y, within, rfl⟩ := List.mem_map.mp among
  exact Bool.not_eq_true' _ ▸ quiet calls a played y within

theorem Stepping.Orderly.quiet {p : Stepping α} (orderly : p.Orderly) (st : StepState) :
    (p.run st).Only fun op => op.isQuiet = true := by
  induction orderly generalizing st with
  | pure a => exact .done _
  | throw e => exact .done _
  | bind _ _ first second =>
      refine .bind (first st) fun out => ?_
      obtain ⟨result, st'⟩ := out
      cases result with
      | ok a => exact second a st'
      | error e => exact .done _
  | get => exact .done _
  | set st' => exact .done _
  | getModify f => exact .done _
  | call steps => exact .perform (NativeCall.isQuiet_of_steps steps) fun _ => .done _
  | tryCall steps => exact .perform (NativeCall.isQuiet_of_steps steps) fun _ => .done _
  | tryEval orderly =>
      refine .bind (.bind (orderly.evaluates.mono ?_) fun _ => .done _) fun _ => .done _
      exact fun _ => EvalOp.isQuiet_of_evaluates

/-- What an evaluation does, a task does that carries it out. -/
theorem Program.Only.working {σ ε : Type} {p : Program evalEffect α} {kind : EvalOp → Prop}
    {kind' : WorkOp σ ε → Prop} (only : p.Only kind) (implied : ∀ op, kind op → kind' (.eval op)) :
    Only (p.working : Job σ ε α) kind' := by
  intro es a played x among
  obtain ⟨ops, evaluated, rfl⟩ := plays_working_iff.mp played
  obtain ⟨y, within, rfl⟩ := List.mem_map.mp among
  exact implied y.op (only ops a evaluated y within)

namespace BreakpointRegistry

theorem quiet_tryBind (symbols : SymbolTable) (modules : List ModuleId) (r : BreakpointRegistry)
    (id : UInt32) : (tryBind symbols modules r id).Quiet := by
  unfold tryBind
  split
  · exact .done _
  · split
    · exact .done _
    · refine .perform rfl fun reply => ?_
      cases reply with
      | ok handle => exact .done _
      | error e => exact .done _

theorem quiet_bindAll (symbols : SymbolTable) (modules : List ModuleId)
    (report : Bool → Bool) (r : BreakpointRegistry) (ids : List UInt32) :
    (bindAll symbols modules report r ids).Quiet := by
  induction ids generalizing r with
  | nil => exact .done _
  | cons id rest inductionHypothesis =>
      refine .bind (quiet_tryBind symbols modules r id) fun (tried, r') => ?_
      exact .bind (inductionHypothesis r') fun _ => .done _

end BreakpointRegistry

/-! ## Properties of tasks -/

/-- A property of tasks that holds of all that the dispatcher does, and is kept where tasks follow
one another. -/
structure Job.Closed (P : {α : Type} → SessionJob α → Prop) : Prop where
  pure : ∀ {α : Type} (a : α), P (Pure.pure a : SessionJob α)
  bind : ∀ {α β : Type} {p : SessionJob α} {f : α → SessionJob β},
    P p → (∀ a, P (f a)) → P (p >>= f)
  update : ∀ {α : Type} (f : SessionState → α × SessionState), P (Job.update f)
  emit : ∀ event, P (Job.emit event)
  working : ∀ {α : Type} {p : Program evalEffect α}, p.Only (fun op => op.isQuiet = true) →
    P (p.working : SessionJob α)
  onStep : ∀ {α : Type} {p : StepContext → Stepping α}, (∀ ctx, (p ctx).Orderly) →
    P (Session.onStep p)
  onBreakpoints : ∀ {α : Type}
    {p : SymbolTable → BreakpointRegistry → Program nativeEffect (α × BreakpointRegistry)},
    (∀ symbols r, (p symbols r).Quiet) → P (Session.onBreakpoints p)

namespace Job.Closed

variable {P : {α : Type} → SessionJob α → Prop} (closed : Closed P)

include closed

theorem run_bind {p : SessionWork α} {f : α → SessionWork β} (first : P p.run)
    (second : ∀ a, P (f a).run) : P (p >>= f).run := by
  refine closed.bind first fun result => ?_
  cases result with
  | ok a => exact second a
  | error e => exact closed.pure _

theorem ofJob {p : SessionJob α} (holds : P p) : P (Work.ofJob p).run :=
  closed.bind holds fun _ => closed.pure _

theorem call {c : NativeCall} (other : c.isMilestone = false) :
    P (Job.native (Native.call c) : SessionJob c.Reply) := by
  refine closed.working (Program.Quiet.evaluating ?_)
  exact Program.Only.perform other fun _ => .done _

theorem workCall {c : NativeCall} (other : c.isMilestone = false) :
    P (Work.native c : SessionWork c.Answer).run :=
  closed.bind (closed.call other) fun _ => closed.pure _

theorem onStep_bind {p : StepContext → Stepping α} {f : α → SessionWork β}
    (orderly : ∀ ctx, (p ctx).Orderly) (second : ∀ a, P (f a).run) :
    P (ExceptT.mk (Session.onStep p) >>= f).run :=
  closed.run_bind (closed.onStep orderly) second

/-! ## Handling of notifications -/

theorem cancelStep : P Session.cancelStep :=
  closed.bind (closed.onStep fun _ => Step.orderly_cancel) fun _ => closed.pure _

theorem evaluateAt (thread : ThreadId) (depth : UInt32) (text : String) :
    P (Session.evaluateAt thread depth text) := by
  refine closed.bind (closed.update _) fun s => closed.working ?_
  exact (Eval.orderly_evaluate _ text).evaluates.mono fun _ => EvalOp.isQuiet_of_evaluates

theorem reportStop (stop : Stop) : P (Session.reportStop stop) := by
  have located : P (Session.topLocation stop.thread) := by
    refine closed.bind (closed.call rfl) fun frames => ?_
    cases frames with
    | ok frames => exact closed.bind (closed.update _) fun _ => closed.pure _
    | error e => exact closed.pure _
  exact closed.bind (closed.update _) fun _ => closed.bind located fun _ => closed.emit _

theorem inUserCode (thread : ThreadId) : P (Session.inUserCode thread).run := by
  refine closed.run_bind (closed.workCall rfl) fun frames => ?_
  split
  · exact closed.pure _
  · refine closed.run_bind (closed.ofJob (closed.update _)) fun s => ?_
    split
    · exact closed.pure _
    · split
      · exact closed.run_bind (closed.workCall rfl) fun _ => closed.pure _
      · exact closed.pure _

theorem holds (thread : ThreadId) (condition : Option String) :
    P (Session.holds thread condition) := by
  have true? (v : EvalValue) : P (Session.isTrue v) := by
    unfold Session.isTrue
    split
    · exact closed.pure _
    · split
      · refine closed.bind (closed.call rfl) fun read => ?_
        cases read with
        | ok p => exact closed.pure _
        | error e => exact closed.pure _
      · exact closed.pure _
    · exact closed.pure _
  cases condition with
  | none => exact closed.pure _
  | some condition =>
      refine closed.bind (closed.evaluateAt thread 0 condition) fun result => ?_
      cases result with
      | ok result => exact true? result.value
      | error e => exact closed.pure _

theorem reportChanged (changed : List BreakpointInfo) : P (Session.reportChanged changed) := by
  induction changed with
  | nil => exact closed.pure _
  | cons info rest inductionHypothesis =>
      exact closed.bind (closed.emit _) fun _ => inductionHypothesis

theorem breakAtEntry (module : ModuleId) : P (Session.breakAtEntry module).run := by
  refine closed.run_bind (closed.ofJob (closed.update _)) fun s => ?_
  split
  · split
    · exact closed.pure _
    · exact closed.run_bind (closed.workCall rfl) fun b => closed.ofJob (closed.update _)
  · exact closed.pure _

theorem onModuleLoaded (module : ModuleInfo) : P (Session.onModuleLoaded module).run := by
  refine closed.run_bind (closed.workCall rfl) fun symbols => ?_
  have announced : P (do
      Work.ofJob (Session.modifyProcess fun p => { p with modules := p.modules ++ [module] })
      let changed ← Work.ofJob
        (Session.onBreakpoints fun symbols r => r.moduleLoaded symbols module.id)
      Session.breakAtEntry module.id
      Work.ofJob (Job.emit (.moduleLoaded module.name module.path))
      Work.ofJob (Session.reportChanged changed)
      return Action.resume : SessionWork Action).run := by
    refine closed.run_bind (closed.ofJob (closed.update _)) fun _ => ?_
    refine closed.run_bind (closed.ofJob ?_) fun changed => ?_
    · exact closed.onBreakpoints fun symbols r => r.quiet_bindAll _ _ _ _
    refine closed.run_bind (closed.breakAtEntry module.id) fun _ => ?_
    refine closed.run_bind (closed.ofJob (closed.emit _)) fun _ => ?_
    refine closed.run_bind (closed.ofJob (closed.reportChanged changed)) fun _ => ?_
    exact closed.pure _
  cases symbols with
  | none => exact announced
  | some symbols => exact closed.run_bind (closed.ofJob (closed.update _)) fun _ => announced

theorem onModuleUnloaded (module : ModuleId) : P (Session.onModuleUnloaded module) := by
  refine closed.bind (closed.update _) fun _ => closed.bind (closed.update _) fun _ => ?_
  refine closed.bind (closed.onBreakpoints fun _ _ => .done _) fun changed => ?_
  exact closed.bind (closed.reportChanged changed) fun _ => closed.pure _

theorem onUserBreakpoint (thread : ThreadId) (handle : NativeBreakpointId) :
    P (Session.onUserBreakpoint thread handle) := by
  refine closed.bind (closed.onBreakpoints fun _ _ => .done _) fun found => ?_
  cases found with
  | none => exact closed.pure _
  | some b =>
      refine closed.bind (closed.holds thread b.condition) fun held => ?_
      cases held with
      | false => exact closed.pure _
      | true =>
          refine closed.bind (closed.onBreakpoints fun _ _ => .done _) fun stops => ?_
          cases stops with
          | false => exact closed.pure _
          | true => exact closed.bind closed.cancelStep fun _ => closed.pure _

theorem onBreakpointHit (thread : ThreadId) (hit : NativeBreakpointId) :
    P (Session.onBreakpointHit thread hit).run := by
  refine closed.run_bind (closed.ofJob (closed.update _)) fun entry => ?_
  split
  · exact closed.run_bind (closed.workCall rfl) fun _ => closed.pure _
  · refine closed.onStep_bind (fun ctx => Step.orderly_onBreakpoint ctx thread hit) ?_
    intro outcome
    cases outcome with
    | some outcome => exact closed.pure _
    | none => exact closed.ofJob (closed.onUserBreakpoint thread hit)

theorem onException (thread : ThreadId) (stage : ExceptionStage) (exception : RemoteValue) :
    P (Session.onException thread stage exception).run := by
  have stops (mode : ExceptionBreaks) : P (Session.stopsAt mode stage thread).run := by
    unfold Session.stopsAt
    split
    · exact closed.pure _
    · exact closed.pure _
    · exact closed.inUserCode thread
    · exact closed.inUserCode thread
    · exact closed.pure _
  refine closed.run_bind (closed.ofJob (closed.update _)) fun s => ?_
  refine closed.run_bind (stops _) fun stop => ?_
  cases stop with
  | false => exact closed.pure _
  | true => exact closed.run_bind (closed.ofJob closed.cancelStep) fun _ => closed.pure _

theorem decide (event : NativeEvent) : P (Session.decide event).run := by
  cases event with
  | processCreated pid => exact closed.ofJob (closed.bind (closed.update _) fun _ => closed.pure _)
  | processExited code =>
      refine closed.ofJob (closed.bind (closed.update _) fun _ => ?_)
      refine closed.bind (closed.update _) fun _ => closed.bind closed.cancelStep fun _ => ?_
      refine closed.bind (closed.emit _) fun _ => closed.bind (closed.emit _) fun _ => ?_
      exact closed.pure _
  | domainCreated => exact closed.pure _
  | threadCreated thread => exact closed.ofJob (closed.bind (closed.emit _) fun _ => closed.pure _)
  | threadExited thread => exact closed.ofJob (closed.bind (closed.emit _) fun _ => closed.pure _)
  | moduleLoaded module => exact closed.onModuleLoaded module
  | moduleUnloaded module => exact closed.ofJob (closed.onModuleUnloaded module)
  | breakpointHit thread b => exact closed.onBreakpointHit thread b
  | stepComplete thread reason =>
      exact closed.onStep_bind (fun ctx => Step.orderly_onStepComplete ctx thread reason)
        fun _ => closed.pure _
  | userBreak thread => exact closed.ofJob (closed.bind closed.cancelStep fun _ => closed.pure _)
  | exception thread stage v => exact closed.onException thread stage v
  | evalComplete thread eval result => exact closed.pure _
  | evalException thread eval value => exact closed.pure _

/-- So the handling of every notification has the property. -/
theorem handle (event : NativeEvent) : P (Session.handle event) := by
  have applied (action : Action) : P (Session.apply action) := by
    cases action with
    | resume => exact closed.bind (closed.call rfl) fun _ => closed.pure _
    | stop stop => exact closed.reportStop stop
    | hold => exact closed.pure _
  refine closed.bind (closed.decide event) fun decided => ?_
  cases decided with
  | ok action => exact applied action
  | error e => exact applied .resume

end Job.Closed

end ManagedDebugger
