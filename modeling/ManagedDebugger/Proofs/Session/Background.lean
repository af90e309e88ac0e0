import ManagedDebugger.Proofs.Session.Unobtrusive

/-!
# What a session does behind a stop

Breakpoints are bound and removed, modules come and go, conditions and expressions are evaluated,
and frames and variables are handed out, and none of it disturbs a stop: the only operations that do
are to resume the target, to report a stop, to change the step in flight and to clear the numbers.
-/

namespace ManagedDebugger

namespace BreakpointRegistry

variable (r : BreakpointRegistry)

theorem calm_tryBind (symbols : SymbolTable) (modules : List ModuleId) (id : UInt32) :
    (tryBind symbols modules r id).Calm := by
  unfold tryBind
  split
  · exact .done _
  · split
    · exact .done _
    · refine .bind (.ask nofun) fun created => ?_
      cases created with
      | ok handle => exact .done _
      | error e => exact .done _

theorem calm_bindAll (symbols : SymbolTable) (modules : List ModuleId) (report : Bool → Bool)
    (ids : List UInt32) : (bindAll symbols modules report r ids).Calm := by
  induction ids generalizing r with
  | nil => exact .done _
  | cons id rest inductionHypothesis =>
      refine .bind (calm_tryBind r symbols modules id) fun tried => ?_
      exact .bind (inductionHypothesis tried.2) fun found => .done _

theorem calm_removeAll (ids : List UInt32) : (r.removeAll ids).Calm := by
  induction ids generalizing r with
  | nil => exact .done r
  | cons id rest inductionHypothesis =>
      unfold removeAll
      split
      · exact inductionHypothesis r
      · dsimp only
        split
        · exact .bind (.ask nofun) fun _ => inductionHypothesis _
        · exact inductionHypothesis _

theorem calm_setBreakpoints (symbols : SymbolTable) (modules : List ModuleId) (file : String)
    (requests : List BreakpointRequest) :
    (setBreakpoints symbols modules file requests r).Calm :=
  .bind (calm_removeAll _ _) fun _ => calm_bindAll _ symbols modules _ _

theorem calm_moduleLoaded (symbols : SymbolTable) (module : ModuleId) :
    (moduleLoaded symbols module r).Calm :=
  calm_bindAll r symbols [module] id r.pendingIds

end BreakpointRegistry

namespace Session

open Job

variable {possible : Exchange evalEffect → Prop}

theorem unobtrusive_get : Unobtrusive possible (Job.get : SessionJob SessionState) :=
  .update (fun _ => rfl) fun _ => .refl

theorem unobtrusive_modifyProcess (f : ProcessState → ProcessState) :
    Unobtrusive possible (modifyProcess f) :=
  .update (fun _ => rfl) fun _ => .refl

theorem unobtrusive_setStatus (status : RunState) : Unobtrusive possible (setStatus status) :=
  unobtrusive_modifyProcess _

theorem unobtrusive_updateHandles {α : Type} {f : HandleTable → α × HandleTable}
    (extending : HandleTable.Extending f) : Unobtrusive possible (updateHandles f) :=
  .update (fun _ => rfl) fun s => extending s.handles

theorem unobtrusive_onBreakpoints {α : Type}
    {p : SymbolTable → BreakpointRegistry → Program nativeEffect (α × BreakpointRegistry)}
    (calm : ∀ symbols r, (p symbols r).Calm) : Unobtrusive possible (onBreakpoints p) := by
  refine .locked (.bind unobtrusive_get fun s => ?_)
  refine .bind (.working (calm s.symbols s.breakpoints).steady) fun found => ?_
  exact .bind (.update (fun _ => rfl) fun _ => .refl) fun _ => .pure found.1

theorem unobtrusive_evaluateAt (thread : ThreadId) (depth : UInt32) (text : String) :
    Unobtrusive possible (evaluateAt thread depth text) :=
  .bind unobtrusive_get fun _ => .working (Eval.orderly_evaluate _ text).steady

theorem unobtrusive_topLocation (thread : ThreadId) :
    Unobtrusive possible (topLocation thread) := by
  refine .bind (unobtrusive_native (.ask nofun)) fun frames => ?_
  cases frames with
  | ok frames => exact .bind unobtrusive_get fun s => .pure _
  | error e => exact .pure none

theorem unobtrusive_inUserCode (thread : ThreadId) :
    Unobtrusive possible (inUserCode thread).run := by
  refine unobtrusive_work_bind (unobtrusive_call nofun) fun frames => ?_
  split
  · exact .pure _
  · refine unobtrusive_work_bind (unobtrusive_ofJob unobtrusive_get) fun s => ?_
    split
    · exact .pure _
    · split
      · exact unobtrusive_work_bind (unobtrusive_call nofun) fun info => .pure _
      · exact .pure _

theorem unobtrusive_launch (request : LaunchRequest) :
    Unobtrusive possible (launch request).run :=
  unobtrusive_work_bind (unobtrusive_call nofun) fun _ =>
    unobtrusive_work_bind (unobtrusive_ofJob (unobtrusive_modifyProcess _)) fun _ => .pure _

theorem unobtrusive_attach (pid : UInt32) : Unobtrusive possible (attach pid).run :=
  unobtrusive_work_bind (unobtrusive_call nofun) fun _ =>
    unobtrusive_ofJob (unobtrusive_modifyProcess _)

theorem unobtrusive_breakAtEntry (module : ModuleId) :
    Unobtrusive possible (breakAtEntry module).run := by
  refine unobtrusive_work_bind (unobtrusive_ofJob unobtrusive_get) fun s => ?_
  split
  · split
    · exact .pure _
    · refine unobtrusive_work_bind (unobtrusive_call nofun) fun b => ?_
      exact unobtrusive_ofJob (unobtrusive_modifyProcess _)
  · exact .pure _

theorem unobtrusive_reportChanged (changed : List BreakpointInfo) :
    Unobtrusive possible (reportChanged changed) := by
  induction changed with
  | nil => exact .pure _
  | cons info rest inductionHypothesis =>
      exact .bind (.emit fun _ _ => nofun) fun _ => inductionHypothesis

theorem unobtrusive_onModuleLoaded (module : ModuleInfo) :
    Unobtrusive possible (onModuleLoaded module).run := by
  refine unobtrusive_work_bind (unobtrusive_call nofun) fun symbols => ?_
  have announced : Unobtrusive possible (do
      Work.ofJob (modifyProcess fun p => { p with modules := p.modules ++ [module] })
      let changed ← Work.ofJob (onBreakpoints fun symbols r => r.moduleLoaded symbols module.id)
      breakAtEntry module.id
      Work.ofJob (Job.emit (.moduleLoaded module.name module.path))
      Work.ofJob (reportChanged changed)
      return Action.resume : SessionWork Action).run := by
    refine unobtrusive_work_bind (unobtrusive_ofJob (unobtrusive_modifyProcess _)) fun _ => ?_
    have bound : Unobtrusive possible
        (onBreakpoints fun symbols r => r.moduleLoaded symbols module.id) :=
      unobtrusive_onBreakpoints fun symbols r => r.calm_moduleLoaded symbols module.id
    refine unobtrusive_work_bind (unobtrusive_ofJob bound) fun changed => ?_
    refine unobtrusive_work_bind (unobtrusive_breakAtEntry module.id) fun _ => ?_
    refine unobtrusive_work_bind (unobtrusive_ofJob (.emit fun _ _ => nofun)) fun _ => ?_
    refine unobtrusive_work_bind (unobtrusive_ofJob (unobtrusive_reportChanged changed))
      fun _ => ?_
    exact .pure _
  cases symbols with
  | none => exact announced
  | some symbols =>
      refine unobtrusive_work_bind (unobtrusive_ofJob ?_) fun _ => announced
      exact .update (fun _ => rfl) fun _ => .refl

theorem unobtrusive_onModuleUnloaded (module : ModuleId) :
    Unobtrusive possible (onModuleUnloaded module) := by
  refine .bind (unobtrusive_modifyProcess _) fun _ => ?_
  refine .bind (.update (fun _ => rfl) fun _ => .refl) fun _ => ?_
  refine .bind (unobtrusive_onBreakpoints fun _ _ => .done _) fun changed => ?_
  exact .bind (unobtrusive_reportChanged changed) fun _ => .pure _

theorem unobtrusive_isTrue (v : EvalValue) : Unobtrusive possible (isTrue v) := by
  unfold isTrue
  split
  · exact .pure _
  · split
    · refine .bind (unobtrusive_native (.ask nofun)) fun read => ?_
      cases read with
      | ok p => exact .pure _
      | error e => exact .pure _
    · exact .pure _
  · exact .pure _

theorem unobtrusive_holds (thread : ThreadId) (condition : Option String) :
    Unobtrusive possible (holds thread condition) := by
  cases condition with
  | none => exact .pure true
  | some condition =>
      refine .bind (unobtrusive_evaluateAt thread 0 condition) fun result => ?_
      cases result with
      | ok result => exact unobtrusive_isTrue result.value
      | error e => exact .pure false

theorem unobtrusive_takeEntryBreakpoint (hit : NativeBreakpointId) :
    Unobtrusive possible (takeEntryBreakpoint hit) := by
  refine .update (fun s => ?_) fun s numbered => ?_
  · dsimp only
    split <;> rfl
  · dsimp only
    split <;> exact .refl numbered

theorem unobtrusive_stopsAt (mode : ExceptionBreaks) (stage : ExceptionStage)
    (thread : ThreadId) : Unobtrusive possible (stopsAt mode stage thread).run := by
  unfold stopsAt
  split
  · exact .pure _
  · exact .pure _
  · exact unobtrusive_inUserCode thread
  · exact unobtrusive_inUserCode thread
  · exact .pure _

theorem unobtrusive_setBreakpoints (file : String) (requests : List BreakpointRequest) :
    Unobtrusive possible (setBreakpoints file requests) := by
  refine .bind unobtrusive_get fun s => ?_
  exact unobtrusive_onBreakpoints fun symbols r => r.calm_setBreakpoints symbols _ file requests

theorem unobtrusive_isLive : Unobtrusive possible isLive :=
  .bind unobtrusive_get fun s => .pure s.process.status.isLive

theorem unobtrusive_requireProcess : Unobtrusive possible requireProcess.run := by
  refine unobtrusive_work_bind (unobtrusive_ofJob unobtrusive_isLive) fun live => ?_
  cases live with
  | true => exact .pure _
  | false => exact .pure _

theorem unobtrusive_threads : Unobtrusive possible threads.run :=
  unobtrusive_work_bind (unobtrusive_call nofun) fun _ => .pure _

theorem unobtrusive_describeFrame (f : NativeFrame) :
    Unobtrusive possible (describeFrame f).run := by
  unfold describeFrame
  split
  · exact .pure _
  · refine unobtrusive_work_bind (unobtrusive_call nofun) fun info => ?_
    exact unobtrusive_work_bind (unobtrusive_ofJob unobtrusive_get) fun s => .pure _

theorem unobtrusive_mapM {α β : Type} {f : α → SessionWork β}
    (each : ∀ a, Unobtrusive possible (f a).run) (as : List α) :
    Unobtrusive possible (as.mapM f).run := by
  induction as with
  | nil => exact .pure _
  | cons a rest inductionHypothesis =>
      rw [List.mapM_cons]
      refine unobtrusive_work_bind (each a) fun b => ?_
      exact unobtrusive_work_bind inductionHypothesis fun bs => .pure _

theorem unobtrusive_stackTrace (thread : ThreadId) (start levels : Nat) :
    Unobtrusive possible (stackTrace thread start levels).run := by
  refine unobtrusive_work_bind (unobtrusive_call nofun) fun frames => ?_
  refine unobtrusive_work_bind (unobtrusive_mapM (fun f => ?_) _) fun described => ?_
  · exact unobtrusive_work_bind (unobtrusive_describeFrame f.1) fun described => .pure _
  · exact unobtrusive_ofJob
      (unobtrusive_updateHandles (HandleTable.extending_numberFrames thread described))

theorem unobtrusive_frame (id : Int) : Unobtrusive possible (frame id).run := by
  refine unobtrusive_work_bind (unobtrusive_ofJob unobtrusive_get) fun s => ?_
  split
  · exact .pure _
  · exact .pure _

theorem unobtrusive_scopes (frameId : Int) : Unobtrusive possible (scopes frameId).run :=
  unobtrusive_work_bind (unobtrusive_frame frameId) fun f =>
    unobtrusive_ofJob (unobtrusive_updateHandles (HandleTable.extending_frameScopes f))

theorem unobtrusive_children (reference : Int) (start count : Nat) :
    Unobtrusive possible (children reference start count).run := by
  refine unobtrusive_work_bind (unobtrusive_ofJob unobtrusive_get) fun s => ?_
  split
  · exact .pure _
  · refine unobtrusive_work_bind (p := Work.ofEval _) ?_ fun pending => ?_
    · exact .bind (.working (Eval.orderly_expand _ _ _ _ _).steady) fun _ => .pure _
    exact unobtrusive_ofJob
      (unobtrusive_updateHandles (HandleTable.extending_registerAll pending))

theorem unobtrusive_evaluationFrame (id : Option Int) :
    Unobtrusive possible (evaluationFrame id).run := by
  cases id with
  | some id => exact unobtrusive_frame id
  | none =>
      refine unobtrusive_work_bind (unobtrusive_ofJob unobtrusive_get) fun s => ?_
      split
      · exact .pure _
      · exact .pure _

theorem unobtrusive_evaluated (r : Except EvalError Evaluated) :
    Unobtrusive possible (evaluated r).run := by
  unfold evaluated
  split
  · exact .pure _
  · exact .pure _
  · exact .pure _

theorem unobtrusive_evaluate (expression : String) (frameId : Option Int) :
    Unobtrusive possible (evaluate expression frameId).run := by
  refine unobtrusive_work_bind (unobtrusive_evaluationFrame frameId) fun f => ?_
  refine unobtrusive_work_bind (unobtrusive_ofJob (unobtrusive_evaluateAt _ _ _)) fun result => ?_
  refine unobtrusive_work_bind (unobtrusive_evaluated result) fun found => ?_
  dsimp only
  split
  · have described (v : RemoteValue) :=
      Program.Calm.ofInspects (Native.inspects_describeValue expression v f.thread f.depth)
    refine unobtrusive_work_bind (unobtrusive_workNative (described _)) fun pending => ?_
    refine unobtrusive_work_bind (unobtrusive_ofJob
      (unobtrusive_updateHandles (HandleTable.extending_register pending))) fun shown => ?_
    exact .pure _
  · refine unobtrusive_work_bind (unobtrusive_workNative
      (.ofInspects (Native.inspects_display _))) fun text => ?_
    exact .pure _

end Session

end ManagedDebugger
