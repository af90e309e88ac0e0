import ManagedDebugger.Proofs.Step.Stepping

/-!
# What becomes of a step

What the step controller says about a notification and what it then holds belong together: a step
that stops the target is over, a breakpoint that is none of the step's leaves it as it was, and a
step that is cancelled is gone. The one exception is the end of a native step that the step in
flight did not ask for: the target stops, and the step stays.
-/

namespace ManagedDebugger

namespace StepState

/-- The temporary breakpoint of a step. -/
def breakpoint? : StepState → Option NativeBreakpointId
  | awaitingYield _ _ _ b _ | awaitingResume _ _ b _ => some b
  | idle | stepping .. => none

/-- The thread on which a step has a native step under way. -/
def stepper? : StepState → Option ThreadId
  | stepping thread _ | awaitingYield thread .. => some thread
  | idle | awaitingResume .. => none

/-- The temporary breakpoint of a step is switched off. -/
def Disarmed (st : StepState) (ops : List EvalOp) : Prop :=
  ∀ b, st.breakpoint? = some b → .native (.setBreakpointActive b false) ∈ ops

/-- Whatever one step has armed in the target, the next one holds, or it is gone: a breakpoint is
switched off, and a native step is called back, unless it has ended by itself. -/
structure HandsOver (ended : ThreadId → Prop) (ops : List EvalOp) (st st' : StepState) : Prop where
  breakpoint : ∀ b, st.breakpoint? = some b →
    st'.breakpoint? = some b ∨ .native (.setBreakpointActive b false) ∈ ops
  stepper : ∀ thread, st.stepper? = some thread →
    st'.stepper? = some thread ∨ .native (.cancelStep thread) ∈ ops ∨ ended thread

theorem eq_idle {st : StepState} (none : st.thread? = none) : st = .idle := by
  cases st with
  | idle => rfl
  | stepping thread kind => cases none
  | awaitingYield thread kind method b resumeOffset => cases none
  | awaitingResume thread kind b identity => cases none

namespace HandsOver

variable {ended : ThreadId → Prop} {ops more : List EvalOp} {st st' st'' : StepState}

theorem refl : HandsOver ended ops st st := ⟨fun _ => .inl, fun _ => .inl⟩

theorem ofIdle : HandsOver ended ops .idle st := ⟨nofun, nofun⟩

theorem ofDisarmed (disarmed : st.Disarmed ops)
    (gone : ∀ thread, st.stepper? = some thread →
      .native (.cancelStep thread) ∈ ops ∨ ended thread) :
    HandsOver ended ops st st' :=
  ⟨fun b armed => .inr (disarmed b armed), fun thread native => .inr (gone thread native)⟩

theorem append (first : HandsOver ended ops st st') (second : HandsOver ended more st' st'') :
    HandsOver ended (ops ++ more) st st'' where
  breakpoint := fun b armed => by
    cases first.breakpoint b armed with
    | inl kept => exact (second.breakpoint b kept).imp id (List.mem_append_right _)
    | inr off => exact .inr (List.mem_append_left _ off)
  stepper := fun thread native => by
    cases first.stepper thread native with
    | inl kept => exact (second.stepper thread kept).imp id (.imp (List.mem_append_right _) id)
    | inr gone => exact .inr (gone.imp (List.mem_append_left _) id)

theorem after (second : HandsOver ended more st st') : HandsOver ended (ops ++ more) st st' :=
  append refl second

theorem mono {ended' : ThreadId → Prop} (handsOver : HandsOver ended ops st st')
    (implied : ∀ thread, ended thread → ended' thread) : HandsOver ended' ops st st' :=
  ⟨handsOver.breakpoint, fun thread native =>
    (handsOver.stepper thread native).imp id (.imp id (implied thread))⟩

end HandsOver

/-- No native step has ended. -/
def NoneEnded (_ : ThreadId) : Prop := False

end StepState

namespace Step

open Stepping

variable {possible : Exchange evalEffect → Prop} {st : StepState}

section Orderly

variable (ctx : StepContext) (thread : ThreadId)

theorem orderly_deactivate (b : NativeBreakpointId) : (deactivate b).Orderly :=
  .bind (.tryCall rfl) fun _ => .pure _

theorem orderly_release (v : RemoteValue) : (release v).Orderly :=
  .bind (.tryCall rfl) fun _ => .pure _

theorem orderly_releaseAll (identity : Option RemoteValue) : (identity.forM release).Orderly := by
  cases identity with
  | none => exact .pure _
  | some v => exact orderly_release v

theorem orderly_finish : finish.Orderly := by
  refine .bind (.getModify _) fun before => ?_
  cases before with
  | idle => exact .pure _
  | stepping thread kind => exact .pure _
  | awaitingYield thread kind method b resumeOffset => exact orderly_deactivate b
  | awaitingResume thread kind b identity =>
      exact .bind (orderly_deactivate b) fun _ => orderly_releaseAll identity

theorem orderly_issue (kind : StepKind) (mode : StepMode) : (issue thread kind mode).Orderly :=
  .bind (.call rfl) fun _ => .set _

theorem orderly_startAt (kind : StepKind) (method : MethodRef) (offset : UInt32) :
    (startAt ctx thread kind method offset).Orderly := by
  unfold startAt
  dsimp only
  split
  · split
    · exact orderly_issue thread .out .out
    · split
      · refine .bind (.call rfl) fun b => ?_
        exact .bind (.call rfl) fun _ => .set _
      · exact orderly_issue thread kind _
  · exact orderly_issue thread kind _

theorem orderly_start (kind : StepKind) : (start ctx thread kind).Orderly := by
  refine .bind .get fun st => ?_
  split
  · exact .throw _
  · refine .bind (.call rfl) fun frames => ?_
    split
    · exact orderly_issue thread .out .out
    · split
      · exact orderly_issue thread .out .out
      · exact orderly_startAt ctx thread kind _ _

theorem orderly_again (kind : StepKind) (into : Bool) : (again ctx thread kind into).Orderly := by
  refine .bind (.call rfl) fun frames => ?_
  exact .bind (orderly_issue thread kind _) fun _ => .pure _

theorem orderly_continuation (landing : Option (MethodRef × UInt32))
    (location : Option SourceLocation) (reason : StepReason) :
    (continuation ctx landing location reason).Orderly := by
  unfold continuation
  split
  · split
    · exact .pure _
    · split
      · refine .bind (.call rfl) fun info => ?_
        split
        · exact .pure _
        · exact .pure _
      · exact .pure _
  · exact .pure _

theorem orderly_identity : (identity? ctx thread).Orderly := by
  refine .bind (.tryEval (Eval.orderly_fetchIdentity ctx.limit thread)) fun found => ?_
  cases found with
  | ok id => exact .pure _
  | error e => exact .pure _

theorem orderly_pinIdentity : (pinIdentity ctx thread).Orderly := by
  refine .bind (orderly_identity ctx thread) fun id => ?_
  cases id with
  | none => exact .pure _
  | some id =>
      refine .bind (.tryCall rfl) fun pinned => ?_
      cases pinned with
      | ok handle => exact .pure _
      | error e => exact .pure _

theorem orderly_onYield (kind : StepKind) (method : MethodRef) (b : NativeBreakpointId)
    (resumeOffset : UInt32) : (onYield ctx thread kind method b resumeOffset).Orderly := by
  refine .bind (.call rfl) fun _ => ?_
  refine .bind (orderly_deactivate b) fun _ => ?_
  refine .bind (orderly_pinIdentity ctx thread) fun identity => ?_
  refine .bind (.tryCall rfl) fun created => ?_
  cases created with
  | ok resume => exact .bind (.set _) fun _ => .pure _
  | error e => exact .bind (orderly_releaseAll identity) fun _ => .throw _

theorem orderly_isContinuation (origin : ThreadId) (identity : Option RemoteValue) :
    (isContinuation ctx thread origin identity).Orderly := by
  unfold isContinuation
  split
  · exact .pure true
  · split
    · exact .pure true
    · refine .bind (.call rfl) fun expected => ?_
      refine .bind (orderly_identity ctx thread) fun current => ?_
      cases current with
      | none => exact .pure false
      | some current => exact .bind (.call rfl) fun address => .pure _

theorem orderly_onResume (kind : StepKind) : (onResume ctx thread kind).Orderly := by
  refine .bind orderly_finish fun _ => ?_
  refine .bind (.call rfl) fun frames => ?_
  dsimp only
  split
  · exact .pure _
  · exact orderly_again ctx thread kind false

theorem orderly_onBreakpoint (hit : NativeBreakpointId) : (onBreakpoint ctx thread hit).Orderly := by
  refine .bind .get fun st => ?_
  split
  · split
    · exact .pure none
    · split
      · exact .pure _
      · exact .bind (orderly_onYield ctx thread _ _ _ _) fun outcome => .pure _
  · split
    · exact .pure none
    · refine .bind (orderly_isContinuation ctx thread _ _) fun continues => ?_
      cases continues with
      | true => exact .bind (orderly_onResume ctx thread _) fun outcome => .pure _
      | false => exact .pure _
  · exact .pure none

theorem orderly_onStepComplete (reason : StepReason) :
    (onStepComplete ctx thread reason).Orderly := by
  unfold onStepComplete
  extract_lets go
  have orderly_go (kind : StepKind) : (go kind).Orderly := by
    refine .bind (.call rfl) fun frames => ?_
    refine .bind (orderly_continuation ctx _ _ reason) fun onward => ?_
    cases onward with
    | some into => exact orderly_again ctx thread kind into
    | none => exact .bind orderly_finish fun _ => .pure _
  refine .bind .get fun st => ?_
  split
  · split
    · exact orderly_go _
    · exact .pure _
  · split
    · exact .bind (orderly_deactivate _) fun _ => .bind (.set _) fun _ => orderly_go _
    · exact .pure _
  · exact .pure _

theorem orderly_cancel : cancel.Orderly := by
  refine .bind .get fun st => ?_
  split
  · exact .pure _
  · exact .bind (.tryCall rfl) fun _ => orderly_finish
  · exact .bind (.tryCall rfl) fun _ => orderly_finish
  · exact orderly_finish

theorem steady_start (kind : StepKind) : (start ctx thread kind).Steady :=
  (orderly_start ctx thread kind).steady

theorem steady_onBreakpoint (hit : NativeBreakpointId) : (onBreakpoint ctx thread hit).Steady :=
  (orderly_onBreakpoint ctx thread hit).steady

theorem steady_onStepComplete (reason : StepReason) :
    (onStepComplete ctx thread reason).Steady :=
  (orderly_onStepComplete ctx thread reason).steady

theorem steady_cancel : cancel.Steady := orderly_cancel.steady

end Orderly

theorem ensures_deactivate (b : NativeBreakpointId) :
    (deactivate b).Ensures possible st fun ops r st' =>
      r = .ok () ∧ st' = st ∧ ops = [.native (.setBreakpointActive b false)] :=
  tryCall_bind fun _ _ => ensures_pure ⟨rfl, rfl, rfl⟩

theorem ensures_releaseAll (identity : Option RemoteValue) :
    (identity.forM release).Ensures possible st fun _ r st' => r = .ok ⟨⟩ ∧ st' = st := by
  cases identity with
  | none => exact ensures_pure ⟨rfl, rfl⟩
  | some v => exact tryCall_bind fun _ _ => ensures_pure ⟨rfl, rfl⟩

/-- A step that is dropped leaves no breakpoint behind. -/
theorem ensures_finish :
    finish.Ensures possible st fun ops r st' => r = .ok () ∧ st' = .idle ∧ st.Disarmed ops := by
  refine getModify_bind ?_
  cases st with
  | idle => exact ensures_pure ⟨rfl, rfl, nofun⟩
  | stepping thread kind => exact ensures_pure ⟨rfl, rfl, nofun⟩
  | awaitingYield thread kind method b resumeOffset =>
      refine (ensures_deactivate b).mono ?_
      intro ops r st' holds
      obtain ⟨rfl, rfl, rfl⟩ := holds
      refine ⟨rfl, rfl, ?_⟩
      intro _ armed
      cases armed
      exact List.mem_singleton.mpr rfl
  | awaitingResume thread kind b identity =>
      refine (ensures_deactivate b).bind ?_ ?_
      · intro ops a st' holds
        obtain ⟨-, rfl, rfl⟩ := holds
        refine (ensures_releaseAll identity).mono ?_
        intro more r st' holds
        obtain ⟨rfl, rfl⟩ := holds
        refine ⟨rfl, rfl, ?_⟩
        intro _ armed
        cases armed
        exact List.mem_append_left _ (List.mem_singleton.mpr rfl)
      · intro ops e st' holds
        obtain ⟨failed, -, -⟩ := holds
        cases failed

/-- A step that is given up leaves nothing armed behind. -/
theorem ensures_cancel :
    cancel.Ensures possible st fun ops r st' =>
      r = .ok () ∧ st' = .idle ∧ st.HandsOver StepState.NoneEnded ops st' := by
  refine get_bind ?_
  have calledOff {thread : ThreadId} (native : st.stepper? = some thread) :
      (do let _ ← Stepping.tryCall (.cancelStep thread); finish : Stepping Unit).Ensures possible st
        fun ops r st' => r = .ok () ∧ st' = .idle ∧ st.HandsOver StepState.NoneEnded ops st' := by
    refine tryCall_bind fun _ _ => ensures_finish.mono ?_
    intro ops r st' holds
    obtain ⟨rfl, rfl, disarmed⟩ := holds
    refine ⟨rfl, rfl, .ofDisarmed (fun b armed => List.mem_cons_of_mem _ (disarmed b armed)) ?_⟩
    intro other stepping
    obtain rfl := Option.some.inj (native.symm.trans stepping)
    exact .inl List.mem_cons_self
  cases st with
  | idle => exact ensures_pure ⟨rfl, rfl, .refl⟩
  | stepping thread kind => exact calledOff rfl
  | awaitingYield thread kind method b resumeOffset => exact calledOff rfl
  | awaitingResume thread kind b identity =>
      refine ensures_finish.mono ?_
      intro ops r st' holds
      obtain ⟨rfl, rfl, disarmed⟩ := holds
      exact ⟨rfl, rfl, .ofDisarmed disarmed nofun⟩

/-- Whoever steps on does not stop. -/
theorem ensures_again (ctx : StepContext) (thread : ThreadId) (kind : StepKind) (into : Bool) :
    (again ctx thread kind into).Ensures possible st fun _ r st' =>
      (∀ t, r ≠ .ok (.stop t)) ∧ (st' = st ∨ st' = .stepping thread kind) := by
  refine call_bind (fun frames _ => ?_) fun _ _ => ⟨nofun, .inl rfl⟩
  refine Ensures.bind (P := fun _ r st' => st' = st ∨ st' = .stepping thread kind) ?_ ?_ ?_
  · exact call_bind (fun _ _ => ensures_set (.inr rfl)) fun _ _ => .inl rfl
  · exact fun _ _ _ state => ensures_pure ⟨nofun, state⟩
  · exact fun _ _ _ state => ⟨nofun, state⟩

theorem ensures_onResume (ctx : StepContext) (thread : ThreadId) (kind : StepKind)
    (noStepper : st.stepper? = none) :
    (onResume ctx thread kind).Ensures possible st fun ops r st' =>
      (∀ t, r = .ok (.stop t) → st' = .idle) ∧ st.HandsOver StepState.NoneEnded ops st' := by
  refine ensures_finish.bind ?_ ?_
  · intro ops _ st' holds
    obtain ⟨-, rfl, disarmed⟩ := holds
    have handsOver : st.HandsOver StepState.NoneEnded ops .idle :=
      .ofDisarmed disarmed fun t native => nomatch noStepper.symm.trans native
    refine call_bind (fun frames _ => ?_) fun _ _ => ⟨nofun, handsOver.append .ofIdle⟩
    dsimp only
    split
    · exact ensures_pure ⟨fun _ _ => rfl, handsOver.append .ofIdle⟩
    · refine (ensures_again ctx thread kind false).mono fun _ _ _ outcome => ?_
      exact ⟨fun t stop => absurd stop (outcome.1 t), handsOver.append .ofIdle⟩
  · intro ops e st' holds
    obtain ⟨failed, -, -⟩ := holds
    cases failed

theorem ensures_identity (ctx : StepContext) (thread : ThreadId) :
    (identity? ctx thread).Ensures possible st fun _ r st' => st' = st ∧ ∃ id, r = .ok id := by
  refine tryEval_bind fun ops found => ?_
  cases found with
  | ok id => exact ensures_pure ⟨rfl, id, rfl⟩
  | error e => exact ensures_pure ⟨rfl, none, rfl⟩

theorem ensures_isContinuation (ctx : StepContext) (thread origin : ThreadId)
    (identity : Option RemoteValue) :
    (isContinuation ctx thread origin identity).Ensures possible st fun _ _ st' => st' = st := by
  unfold isContinuation
  split
  · exact ensures_pure rfl
  · split
    · exact ensures_pure rfl
    · refine call_bind (fun expected _ => ?_) fun _ _ => rfl
      refine (ensures_identity ctx thread).bind ?_ fun _ _ _ same => same.1
      intro ops current st' holds
      obtain ⟨rfl, -⟩ := holds
      cases current with
      | none => exact ensures_pure rfl
      | some current => exact call_bind (fun address _ => ensures_pure rfl) fun _ _ => rfl

theorem ensures_pinIdentity (ctx : StepContext) (thread : ThreadId) :
    (pinIdentity ctx thread).Ensures possible st fun _ _ st' => st' = st := by
  refine (ensures_identity ctx thread).bind ?_ fun _ _ _ same => same.1
  intro ops identity st' holds
  obtain ⟨rfl, -⟩ := holds
  cases identity with
  | none => exact ensures_pure rfl
  | some id =>
      refine tryCall_bind fun pinned _ => ?_
      cases pinned with
      | ok handle => exact ensures_pure rfl
      | error e => exact ensures_pure rfl

/-- At its yield point a step goes on, and waits for the method to resume. -/
theorem ensures_onYield (ctx : StepContext) (thread : ThreadId) (kind : StepKind)
    (method : MethodRef) (b : NativeBreakpointId) (resumeOffset : UInt32)
    (armed : st.breakpoint? = some b) (native : st.stepper? = some thread) :
    (onYield ctx thread kind method b resumeOffset).Ensures possible st fun ops r st' =>
      (∀ t, r ≠ .ok (.stop t)) ∧ st.HandsOver StepState.NoneEnded ops st' := by
  refine call_bind (fun _ _ => ?_) fun _ _ => ⟨nofun, .refl⟩
  refine (ensures_deactivate b).bind ?_ ?_
  · intro _ _ _ holds
    obtain ⟨-, rfl, rfl⟩ := holds
    refine (ensures_pinIdentity ctx thread).bind ?_ fun _ _ _ same => ⟨nofun, same ▸ .refl⟩
    intro ops identity _ same
    subst same
    refine tryCall_bind fun created _ => ?_
    cases created with
    | ok resume =>
        refine set_bind (ensures_pure ⟨nofun, .ofDisarmed ?_ ?_⟩)
        · intro other same
          obtain rfl := Option.some.inj (armed.symm.trans same)
          exact List.mem_cons_of_mem _ List.mem_cons_self
        · intro other same
          obtain rfl := Option.some.inj (native.symm.trans same)
          exact .inl List.mem_cons_self
    | error e =>
        refine (ensures_releaseAll identity).bind ?_ fun _ _ _ same => ⟨nofun, same.2 ▸ .refl⟩
        intro _ _ _ holds
        obtain ⟨-, rfl⟩ := holds
        exact ensures_throw ⟨nofun, .refl⟩
  · intro ops e st' holds
    obtain ⟨failed, -, -⟩ := holds
    cases failed

/-- A breakpoint that is none of the step's own leaves the step as it was, and one that stops the
target ends the step. Without a step there is no outcome. -/
theorem ensures_onBreakpoint (ctx : StepContext) (thread : ThreadId) (hit : NativeBreakpointId) :
    (onBreakpoint ctx thread hit).Ensures possible st fun ops r st' =>
      (r = .ok none → st' = st) ∧ (∀ t, r = .ok (some (.stop t)) → st' = .idle) ∧
      (st = .idle → r = .ok none) ∧ st.HandsOver StepState.NoneEnded ops st' := by
  refine get_bind ?_
  cases st with
  | idle => exact ensures_pure ⟨fun _ => rfl, nofun, fun _ => rfl, .refl⟩
  | stepping t kind => exact ensures_pure ⟨fun _ => rfl, nofun, nofun, .refl⟩
  | awaitingYield origin kind method b resumeOffset =>
      dsimp only
      split
      · exact ensures_pure ⟨fun _ => rfl, nofun, nofun, .refl⟩
      · split
        · exact ensures_pure ⟨nofun, nofun, nofun, .refl⟩
        case isFalse same =>
          obtain rfl := Classical.not_not.mp same
          refine (ensures_onYield ctx origin kind method b resumeOffset rfl rfl).bind ?_ ?_
          · intro ops outcome st' holds
            obtain ⟨other, handsOver⟩ := holds
            refine ensures_pure ⟨nofun, ?_, nofun, handsOver.append .refl⟩
            intro t stop
            cases stop
            exact absurd rfl (other t)
          · exact fun _ _ _ outcome => ⟨nofun, nofun, nofun, outcome.2⟩
  | awaitingResume origin kind b identity =>
      dsimp only
      split
      · exact ensures_pure ⟨fun _ => rfl, nofun, nofun, .refl⟩
      · refine (ensures_isContinuation ctx thread origin identity).bind ?_ ?_
        · intro ops continues _ same
          subst same
          cases continues with
          | false => exact ensures_pure ⟨nofun, nofun, nofun, .refl⟩
          | true =>
              refine (ensures_onResume ctx thread kind rfl).bind ?_ ?_
              · intro more outcome st' holds
                obtain ⟨ended, handsOver⟩ := holds
                refine ensures_pure ⟨nofun, ?_, nofun, (handsOver.append .refl).after⟩
                intro t stop
                cases stop
                exact ended t rfl
              · exact fun _ _ _ outcome => ⟨nofun, nofun, nofun, outcome.2.after⟩
        · exact fun _ _ _ same => ⟨nofun, nofun, nofun, same ▸ .refl⟩

theorem ensures_continuation (ctx : StepContext) (landing : Option (MethodRef × UInt32))
    (location : Option SourceLocation) (reason : StepReason) :
    (continuation ctx landing location reason).Ensures possible st fun _ _ st' => st' = st := by
  unfold continuation
  split
  · split
    · exact ensures_pure rfl
    · split
      · refine call_bind (fun info _ => ?_) fun _ _ => rfl
        split
        · exact ensures_pure rfl
        · exact ensures_pure rfl
      · exact ensures_pure rfl
  · exact ensures_pure rfl

/-- The end of a native step that the step in flight asked for ends the step or goes on. The end of
any other one stops the target and leaves the step as it was. -/
theorem ensures_onStepComplete (ctx : StepContext) (thread : ThreadId) (reason : StepReason) :
    (onStepComplete ctx thread reason).Ensures possible st fun ops r st' =>
      (st.stepper? ≠ some thread → r = .ok (.stop thread) ∧ st' = st) ∧
      (st.stepper? = some thread → ∀ t, r = .ok (.stop t) → st' = .idle) ∧
      st.HandsOver (· = thread) ops st' := by
  unfold onStepComplete
  extract_lets go
  -- Where the native step ended: the place is the last one, or the step goes on from it.
  have ensures_go (kind : StepKind) :
      (go kind).Ensures possible (.stepping thread kind) fun ops r st' =>
        (∀ t, r = .ok (.stop t) → st' = .idle) ∧
        (StepState.stepping thread kind).HandsOver (· = thread) ops st' := by
    refine call_bind (fun frames _ => ?_) fun _ _ => ⟨nofun, .refl⟩
    refine (ensures_continuation ctx _ _ reason).bind ?_ fun _ _ _ same => ⟨nofun, same ▸ .refl⟩
    intro ops onward _ same
    subst same
    cases onward with
    | some into =>
        refine (ensures_again ctx thread kind into).mono ?_
        intro more r st' holds
        obtain ⟨other, same⟩ := holds
        obtain rfl : st' = .stepping thread kind := same.elim id id
        exact ⟨fun t stop => absurd stop (other t), .refl⟩
    | none =>
        have gone {ops : List EvalOp} {st' : StepState} :
            (StepState.stepping thread kind).HandsOver (· = thread) ops st' := by
          refine .ofDisarmed nofun ?_
          intro _ armed
          cases armed
          exact .inr rfl
        refine ensures_finish.bind ?_ fun _ _ _ _ => ⟨nofun, gone⟩
        intro more _ _ holds
        obtain ⟨-, rfl, -⟩ := holds
        exact ensures_pure ⟨fun _ _ => rfl, gone⟩
  refine get_bind ?_
  cases st with
  | idle => exact ensures_pure ⟨fun _ => ⟨rfl, rfl⟩, nofun, .refl⟩
  | awaitingResume origin kind b identity =>
      exact ensures_pure ⟨fun _ => ⟨rfl, rfl⟩, nofun, .refl⟩
  | stepping t kind =>
      dsimp only
      split
      case isTrue same =>
        subst same
        refine (ensures_go kind).mono fun ops r st' ended => ⟨fun other => absurd rfl other, ?_⟩
        exact ⟨fun _ => ended.1, ended.2⟩
      case isFalse other =>
        refine ensures_pure ⟨fun _ => ⟨rfl, rfl⟩, ?_, .refl⟩
        intro asked
        cases asked
        exact absurd rfl other
  | awaitingYield t kind method b resumeOffset =>
      dsimp only
      split
      case isTrue same =>
        subst same
        have handsOver : (StepState.awaitingYield t kind method b resumeOffset).HandsOver (· = t)
            [.native (.setBreakpointActive b false)] (.stepping t kind) := by
          refine ⟨?_, fun _ => .inl⟩
          intro _ armed
          cases armed
          exact .inr (List.mem_singleton.mpr rfl)
        refine (ensures_deactivate b).bind ?_ ?_
        · intro _ _ _ holds
          obtain ⟨-, rfl, rfl⟩ := holds
          refine set_bind ((ensures_go kind).mono fun ops r st' ended => ?_)
          exact ⟨fun other => absurd rfl other, fun _ => ended.1, handsOver.append ended.2⟩
        · intro ops e st' holds
          obtain ⟨failed, -, -⟩ := holds
          cases failed
      case isFalse other =>
        refine ensures_pure ⟨fun _ => ⟨rfl, rfl⟩, ?_, .refl⟩
        intro asked
        cases asked
        exact absurd rfl other

/-- A step only starts when nothing is armed. -/
theorem ensures_start_handsOver (ctx : StepContext) (thread : ThreadId) (kind : StepKind) :
    (start ctx thread kind).Ensures possible st fun ops _ st' =>
      st.HandsOver StepState.NoneEnded ops st' := by
  cases flight : st.thread? with
  | some active =>
      refine get_bind ?_
      rw [flight]
      exact ensures_throw .refl
  | none =>
      obtain rfl := StepState.eq_idle flight
      exact ensures_true.mono fun _ _ _ _ => .ofIdle

section Start

/-- Calls that succeed go on. -/
theorem succeeding_bind {β : Type} {c : NativeCall} {f : c.Answer → Stepping β}
    {Q : List EvalOp → Except EngineError β → StepState → Prop}
    (next : ∀ answer, (f answer).Ensures EvalOp.Succeeds st fun more => Q (.native c :: more)) :
    (Stepping.call c >>= f).Ensures EvalOp.Succeeds st Q := by
  refine call_bind (fun answer _ => next answer) fun e failed => ?_
  obtain ⟨answer, other⟩ := failed
  cases other

theorem ensures_issue (thread : ThreadId) (kind : StepKind) (mode : StepMode) :
    (issue thread kind mode).Ensures EvalOp.Succeeds st fun _ r _ => r = .ok ⟨⟩ :=
  succeeding_bind fun _ => ensures_set rfl

theorem ensures_startAt (ctx : StepContext) (thread : ThreadId) (kind : StepKind)
    (method : MethodRef) (offset : UInt32) :
    (startAt ctx thread kind method offset).Ensures EvalOp.Succeeds st fun _ r _ =>
      r = .ok ⟨⟩ := by
  unfold startAt
  dsimp only
  split
  · split
    · exact ensures_issue thread .out .out
    · split
      · exact succeeding_bind fun b => succeeding_bind fun _ => ensures_set rfl
      · exact ensures_issue thread kind _
  · exact ensures_issue thread kind _

/-- One step at a time: a step in flight is in the way of another one, and nothing else is. -/
theorem ensures_start (ctx : StepContext) (thread : ThreadId) (kind : StepKind) :
    (start ctx thread kind).Ensures EvalOp.Succeeds st fun _ r st' =>
      (∀ t, st.thread? = some t → r = .error (.stepInProgress t) ∧ st' = st) ∧
      (st.thread? = none → r = .ok ⟨⟩) := by
  refine get_bind ?_
  cases flight : st.thread? with
  | some active =>
      refine ensures_throw ⟨?_, nofun⟩
      intro _ inFlight
      cases inFlight
      exact ⟨rfl, rfl⟩
  | none =>
      refine succeeding_bind fun frames => ?_
      have accepted {p : Stepping Unit}
          (issued : p.Ensures EvalOp.Succeeds st fun _ r _ => r = .ok ⟨⟩) :
          p.Ensures EvalOp.Succeeds st fun _ r st' =>
            (∀ t, none = some t → r = .error (.stepInProgress t) ∧ st' = st) ∧
            ((none : Option ThreadId) = none → r = .ok ⟨⟩) :=
        issued.mono fun _ _ _ ok => ⟨nofun, fun _ => ok⟩
      split
      · exact accepted (ensures_issue thread .out .out)
      · split
        · exact accepted (ensures_issue thread .out .out)
        · exact accepted (ensures_startAt ctx thread kind _ _)

end Start

end Step

end ManagedDebugger
