import ManagedDebugger.Proofs.Session.Composition
import ManagedDebugger.Proofs.Session.Locks
import ManagedDebugger.Server.Response

/-!
# Every task of a session lets its locks go

A lock is taken for the breakpoints or for the step in flight, and nothing is done under it but to
read the state, to work on that part of it and to put it back.
-/

namespace ManagedDebugger

variable {α β : Type}

namespace Job.Tidy

variable {σ ε : Type}

theorem pure (a : α) : Tidy (Pure.pure a : Job σ ε α) := .done a

theorem bind {p : Job σ ε α} {f : α → Job σ ε β} (first : p.Tidy) (second : ∀ a, (f a).Tidy) :
    (p >>= f).Tidy :=
  Holding.bind first second

theorem map (f : α → β) {p : Job σ ε α} (tidy : p.Tidy) : (f <$> p).Tidy :=
  .bind tidy fun _ => .pure _

theorem run_bind {p : Work σ ε α} {f : α → Work σ ε β} (first : Tidy p.run)
    (second : ∀ a, Tidy (f a).run) : Tidy (p >>= f).run := by
  refine .bind first fun result => ?_
  cases result with
  | ok a => exact second a
  | error e => exact .pure _

theorem run_map (f : α → β) {p : Work σ ε α} (tidy : Tidy p.run) : Tidy (f <$> p).run :=
  .run_bind tidy fun _ => .pure _

theorem update (f : σ → α × σ) : Tidy (Job.update f : Job σ ε α) := holding_update f

theorem emit (event : ε) : Tidy (Job.emit event : Job σ ε Unit) := holding_ask fun _ => id

theorem ofJob {p : Job σ ε α} (tidy : p.Tidy) : Tidy (Work.ofJob p).run :=
  .bind tidy fun _ => .pure _

theorem native (p : Native α) : Tidy (Job.native p : Job σ ε (Except NativeError α)) :=
  holding_working _

theorem ofNative (p : Native α) : Tidy (Work.ofNative p : Work σ ε α).run :=
  .bind (.native p) fun _ => .pure _

theorem ofEval (p : Eval α) : Tidy (Work.ofEval p : Work σ ε α).run :=
  .bind (holding_working _) fun _ => .pure _

theorem call (c : NativeCall) : Tidy (Work.native c : Work σ ε c.Answer).run := .ofNative _

/-- A lock is held over something that takes none. -/
theorem locked {lock : Lock} {p : Job σ ε α} (inside : p.Holding (some lock) (some lock)) :
    Tidy (Job.locked lock p) := by
  refine .acquire ?_
  change Holding _ _ (p >>= fun a => Program.ask (E := workEffect σ ε) (.release lock) >>= fun _ =>
    Pure.pure a)
  exact inside.bind fun a => .release (.done a)

end Job.Tidy

namespace Session

open Job

theorem tidy_onBreakpoints
    (p : SymbolTable → BreakpointRegistry → Program nativeEffect (α × BreakpointRegistry)) :
    (onBreakpoints p).Tidy := by
  refine .locked (.bind (holding_update _) fun s => ?_)
  exact .bind (holding_working _) fun _ => .bind (holding_update _) fun _ => .done _

theorem tidy_onStep (p : StepContext → Stepping α) : (onStep p).Tidy := by
  refine .bind (.update _) fun s => .locked (.bind (holding_update _) fun before => ?_)
  exact .bind (holding_working _) fun _ => .bind (holding_update _) fun _ => .done _

theorem closed_tidy : Job.Closed fun p => Job.Tidy p where
  pure := .pure
  bind := .bind
  update := .update
  emit := .emit
  working _ := holding_working _
  onStep _ := tidy_onStep _
  onBreakpoints _ := tidy_onBreakpoints _

/-- The dispatcher lets go what it took. -/
theorem tidies_handle : Run.Tidies (some handle) := by
  rintro _ ⟨⟩ event
  exact closed_tidy.handle event

/-! ## Requests -/

theorem tidy_launch (request : LaunchRequest) : (launch request).run.Tidy :=
  .run_bind (.call _) fun _ => .run_bind (.ofJob (.update _)) fun _ => .pure _

theorem tidy_attach (pid : UInt32) : (attach pid).run.Tidy :=
  .run_bind (.call _) fun _ => .ofJob (.update _)

theorem tidy_disconnect (kill : Bool) : (disconnect kill).Tidy := by
  refine .bind (.bind (.update _) fun _ => .pure _) fun live => ?_
  split
  · refine .bind closed_tidy.cancelStep fun _ => .bind (.update _) fun _ => ?_
    exact .bind (.native _) fun _ => .pure _
  · exact .pure _

theorem tidy_requireProcess_bind {f : Unit → SessionWork α} (second : (f ()).run.Tidy) :
    (requireProcess >>= f).run.Tidy := by
  refine .run_bind (.run_bind (.ofJob (.bind (.update _) fun _ => .pure _)) fun live => ?_)
    fun _ => second
  split
  · exact .pure _
  · exact .pure _

theorem tidy_resume : resume.run.Tidy :=
  .run_bind (.ofJob (.update _)) fun _ => .run_bind (.ofJob (.update _)) fun _ =>
    .run_bind (.call _) fun _ => .ofJob (.emit _)

theorem tidy_pause : pause.run.Tidy := by
  refine tidy_requireProcess_bind (.run_bind (.call _) fun _ => ?_)
  refine .run_bind (.ofJob closed_tidy.cancelStep) fun _ => .run_bind (.call _) fun threads => ?_
  exact .ofJob (closed_tidy.reportStop _)

theorem tidy_configurationDone : configurationDone.run.Tidy := by
  refine .run_bind (.ofJob (.update _)) fun held => ?_
  cases held with
  | false => exact .pure _
  | true => exact .call _

theorem tidy_mapM {f : α → SessionWork β} (each : ∀ a, Tidy (f a).run) (as : List α) :
    Tidy (as.mapM f).run := by
  induction as with
  | nil => exact .pure _
  | cons a rest inductionHypothesis =>
      rw [List.mapM_cons]
      exact .run_bind (each a) fun _ => .run_bind inductionHypothesis fun _ => .pure _

theorem tidy_stackTrace (thread : ThreadId) (start levels : Nat) :
    (stackTrace thread start levels).run.Tidy := by
  have described (f : NativeFrame) : (describeFrame f).run.Tidy := by
    unfold describeFrame
    split
    · exact .pure _
    · exact .run_bind (.call _) fun _ => .run_bind (.ofJob (.update _)) fun _ => .pure _
  refine .run_bind (.call _) fun frames => ?_
  refine .run_bind (tidy_mapM (fun f => ?_) _) fun _ => .ofJob (.update _)
  exact .run_bind (described f.1) fun _ => .pure _

theorem tidy_frame (id : Int) : (frame id).run.Tidy := by
  refine .run_bind (.ofJob (.update _)) fun s => ?_
  split
  · exact .pure _
  · exact .pure _

theorem tidy_children (reference : Int) (start count : Nat) :
    (children reference start count).run.Tidy := by
  refine .run_bind (.ofJob (.update _)) fun s => ?_
  split
  · exact .pure _
  · exact .run_bind (.ofEval _) fun _ => .ofJob (.update _)

theorem tidy_evaluate (expression : String) (frameId : Option Int) :
    (evaluate expression frameId).run.Tidy := by
  have chosen : (evaluationFrame frameId).run.Tidy := by
    cases frameId with
    | some id => exact tidy_frame id
    | none =>
        refine .run_bind (.ofJob (.update _)) fun s => ?_
        split
        · exact .pure _
        · exact .pure _
  have settled (r : Except EvalError Evaluated) : (evaluated r).run.Tidy := by
    unfold evaluated
    split
    · exact .pure _
    · exact .pure _
    · exact .pure _
  refine .run_bind chosen fun f => ?_
  refine .run_bind (.ofJob (closed_tidy.evaluateAt _ _ _)) fun result => ?_
  refine .run_bind (settled result) fun found => ?_
  dsimp only
  split
  · exact .run_bind (.ofNative _) fun _ => .run_bind (.ofJob (.update _)) fun _ => .pure _
  · exact .run_bind (.ofNative _) fun _ => .pure _

/-- Every request lets go what it took. -/
theorem tidy_work (request : SessionRequest) : request.work.run.Tidy := by
  cases request with
  | configurationDone => exact .run_bind tidy_configurationDone fun _ => .pure _
  | setBreakpoints source breakpoints =>
      refine .run_bind (.ofJob ?_) fun _ => .pure _
      exact .bind (.update _) fun _ => tidy_onBreakpoints _
  | continue_ => exact .run_bind (tidy_requireProcess_bind tidy_resume) fun _ => .pure _
  | pause => exact .run_bind tidy_pause fun _ => .pure _
  | step kind thread =>
      refine .run_bind (tidy_requireProcess_bind ?_) fun _ => .pure _
      have started := tidy_onStep fun ctx => Step.start ctx thread kind
      exact .run_bind (p := ExceptT.mk _) started fun _ => tidy_resume
  | threads => exact .run_bind (.run_bind (.call _) fun _ => .pure _) fun _ => .pure _
  | stackTrace thread start levels =>
      exact .run_bind (tidy_stackTrace thread start levels) fun _ => .pure _
  | scopes frame =>
      exact .run_bind (.run_bind (tidy_frame frame) fun _ => .ofJob (.update _)) fun _ => .pure _
  | children reference start count =>
      exact .run_bind (tidy_children reference start count) fun _ => .pure _
  | evaluate expression frame =>
      exact .run_bind (tidy_evaluate expression frame) fun _ => .pure _
  | terminate =>
      refine .run_bind (tidy_requireProcess_bind ?_) fun _ => .pure _
      exact .run_bind (.ofJob closed_tidy.cancelStep) fun _ => .call _

end Session

end ManagedDebugger
