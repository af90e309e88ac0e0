import ManagedDebugger.Proofs.Step.Armed
import ManagedDebugger.Proofs.Trace

/-!
# Identities that are kept across resumes

While a step waits for a method to resume, it keeps the identity of the invocation by a handle that
the target has made for it. Whoever is in possession of such a handle passes it on or lets it go:
what was kept before, with what was made on the way, is what was let go followed by what is kept
afterwards. This holds of every function of the step controller, whatever calls fail in it, and so
of every sequence of operations; and once the step controller is dropped nothing is kept.
-/

namespace ManagedDebugger

/-- The handle that was just made. -/
def Exchange.pinned? : Exchange evalEffect → Option RemoteValue
  | ⟨.native (.createHandle _), .ok handle⟩ => some handle
  | _ => none

/-- The handle that was just let go; it is gone even if the target complains. -/
def Exchange.unpinned? : Exchange evalEffect → Option RemoteValue
  | ⟨.native (.releaseHandle handle), _⟩ => some handle
  | _ => none

/-- The handles that were made, in order. -/
def pinned (es : List (Exchange evalEffect)) : List RemoteValue := es.filterMap Exchange.pinned?

/-- The handles that were let go, in order. -/
def unpinned (es : List (Exchange evalEffect)) : List RemoteValue :=
  es.filterMap Exchange.unpinned?

/-- The handles that were made and not let go. -/
def stillPinned (es : List (Exchange evalEffect)) : List RemoteValue :=
  (pinned es).diff (unpinned es)

@[simp]
theorem pinned_nil : pinned [] = [] := rfl

@[simp]
theorem unpinned_nil : unpinned [] = [] := rfl

@[simp]
theorem pinned_append (first second : List (Exchange evalEffect)) :
    pinned (first ++ second) = pinned first ++ pinned second :=
  List.filterMap_append

@[simp]
theorem unpinned_append (first second : List (Exchange evalEffect)) :
    unpinned (first ++ second) = unpinned first ++ unpinned second :=
  List.filterMap_append

/-- Calls that make a handle or let one go. -/
def EvalOp.pins : EvalOp → Bool
  | native (.createHandle _) | native (.releaseHandle _) => true
  | _ => false

theorem EvalOp.pins_of_evaluates {op : EvalOp} (evaluates : op.evaluates = true) :
    op.pins = false := by
  cases op with
  | native c => cases c <;> first | rfl | cases evaluates
  | _ => rfl

namespace Exchange

variable {x : Exchange evalEffect}

theorem pinned?_of_not_pins (other : x.op.pins = false) : x.pinned? = none := by
  unfold pinned?
  split
  · cases other
  · rfl

theorem unpinned?_of_not_pins (other : x.op.pins = false) : x.unpinned? = none := by
  unfold unpinned?
  split
  · cases other
  · rfl

end Exchange

/-- Of the handles kept before, and of those made on the way, each is let go once in the order in
which they were made, or kept afterwards. None is let go before it is made. -/
structure PassesOn (held : List RemoteValue) (es : List (Exchange evalEffect))
    (held' : List RemoteValue) : Prop where
  account : held ++ pinned es = unpinned es ++ held'
  timely : ∀ before, before <+: es → unpinned before <+: held ++ pinned before

namespace PassesOn

variable {held held' held'' : List RemoteValue} {es more : List (Exchange evalEffect)}

theorem nil (held : List RemoteValue) : PassesOn held [] held where
  account := List.append_nil held
  timely before earlier := by
    obtain rfl := List.prefix_nil.mp earlier
    exact List.nil_prefix

theorem append (first : PassesOn held es held') (second : PassesOn held' more held'') :
    PassesOn held (es ++ more) held'' where
  account := by
    rw [pinned_append, unpinned_append, ← List.append_assoc, first.account, List.append_assoc,
      second.account, List.append_assoc]
  timely before earlier := by
    rcases prefix_append_iff.mp earlier with within | ⟨later, after, rfl⟩
    · exact first.timely before within
    · rw [pinned_append, unpinned_append, ← List.append_assoc, first.account, List.append_assoc]
      exact (List.prefix_append_right_inj _).mpr (second.timely later after)

/-- A single exchange, of which there is nothing between before and after. -/
theorem single {x : Exchange evalEffect}
    (account : held ++ x.pinned?.toList = x.unpinned?.toList ++ held') :
    PassesOn held [x] held' := by
  have pinnedOne : pinned [x] = x.pinned?.toList := by
    rw [pinned, List.filterMap_cons]
    cases x.pinned? <;> rfl
  have unpinnedOne : unpinned [x] = x.unpinned?.toList := by
    rw [unpinned, List.filterMap_cons]
    cases x.unpinned? <;> rfl
  have whole : held ++ pinned [x] = unpinned [x] ++ held' := by rw [pinnedOne, unpinnedOne, account]
  refine ⟨whole, fun before earlier => ?_⟩
  rcases List.prefix_cons_iff.mp earlier with rfl | ⟨rest, rfl, nothing⟩
  · exact List.nil_prefix
  · obtain rfl := List.prefix_nil.mp nothing
    rw [whole]
    exact List.prefix_append _ _

/-- Exchanges that have nothing to do with handles. -/
theorem of_not_pins (others : ∀ x ∈ es, x.op.pins = false) : PassesOn held es held := by
  induction es with
  | nil => exact .nil held
  | cons x rest inductionHypothesis =>
      obtain ⟨here, others⟩ := List.forall_mem_cons.mp others
      have first : PassesOn held [x] held := by
        refine single ?_
        rw [Exchange.pinned?_of_not_pins here, Exchange.unpinned?_of_not_pins here]
        exact List.append_nil held
      exact first.append (inductionHypothesis others)

end PassesOn

/-- The identity that a step keeps. -/
def StepState.identity? : StepState → Option RemoteValue
  | awaitingResume _ _ _ identity => identity
  | idle | stepping .. | awaitingYield .. => none

namespace Stepping

variable {α β : Type} {st : StepState} {held : List RemoteValue}

/-- However a program ends that starts with a step in flight and with handles, those handles and all
that it makes are passed on, and its result, the step in flight and the handles left are as
wanted. -/
def Owns (held : List RemoteValue) (p : Stepping α) (st : StepState)
    (Q : Except EngineError α → StepState → List RemoteValue → Prop) : Prop :=
  ∀ es out, (p.run st).Plays es out → ∃ held', PassesOn held es held' ∧ Q out.1 out.2 held'

namespace Owns

variable {P : Except EngineError α → StepState → List RemoteValue → Prop}
  {Q : Except EngineError β → StepState → List RemoteValue → Prop}

theorem pure {b : β} (holds : Q (.ok b) st held) : Owns held (Pure.pure b) st Q := by
  intro es out played
  obtain ⟨rfl, rfl⟩ := Program.plays_done_iff.mp played
  exact ⟨held, .nil held, holds⟩

theorem throw {e : EngineError} (holds : Q (.error e) st held) :
    Owns held (MonadExcept.throw e : Stepping β) st Q := by
  intro es out played
  obtain ⟨rfl, rfl⟩ := Program.plays_done_iff.mp played
  exact ⟨held, .nil held, holds⟩

theorem set {st' : StepState}
    {Q : Except EngineError PUnit → StepState → List RemoteValue → Prop}
    (holds : Q (.ok ⟨⟩) st' held) :
    Owns held (MonadStateOf.set st' : Stepping PUnit) st Q := by
  intro es out played
  obtain ⟨rfl, rfl⟩ := Program.plays_done_iff.mp played
  exact ⟨held, .nil held, holds⟩

theorem mono {P' : Except EngineError α → StepState → List RemoteValue → Prop} {p : Stepping α}
    (owns : p.Owns held st P) (implied : ∀ r st' held', P r st' held' → P' r st' held') :
    p.Owns held st P' := by
  intro es out played
  obtain ⟨held', passes, holds⟩ := owns es out played
  exact ⟨held', passes, implied _ _ _ holds⟩

theorem bind {p : Stepping α} {f : α → Stepping β} (first : p.Owns held st P)
    (ok : ∀ a st' held', P (.ok a) st' held' → (f a).Owns held' st' Q)
    (error : ∀ e st' held', P (.error e) st' held' → Q (.error e) st' held') :
    (p >>= f).Owns held st Q := by
  intro es out played
  obtain ⟨es₁, ⟨result, st'⟩, es₂, left, right, rfl⟩ := Program.plays_bind_iff.mp played
  obtain ⟨held', passes, holds⟩ := first es₁ _ left
  cases result with
  | ok a =>
      obtain ⟨held'', onward, ended⟩ := ok a st' held' holds es₂ out right
      exact ⟨held'', passes.append onward, ended⟩
  | error e =>
      obtain ⟨rfl, rfl⟩ := Program.plays_done_iff.mp right
      exact ⟨held', passes.append (.nil held'), error e st' held' holds⟩

theorem afterGet {f : StepState → Stepping β} (next : (f st).Owns held st Q) :
    (get >>= f).Owns held st Q := next

theorem afterSet {st' : StepState} {f : PUnit → Stepping β} (next : (f ⟨⟩).Owns held st' Q) :
    (MonadStateOf.set st' >>= f : Stepping β).Owns held st Q := next

theorem afterModify {g : StepState → StepState} {f : StepState → Stepping β}
    (next : (f st).Owns held (g st) Q) : (getModify g >>= f).Owns held st Q := next

/-- A call that may fail, with what becomes of the handles by each reply. -/
theorem afterReply {c : NativeCall} {f : c.Reply → Stepping β} (held' : c.Reply → List RemoteValue)
    (passes : ∀ reply, PassesOn held [⟨.native c, reply⟩] (held' reply))
    (next : ∀ reply, (f reply).Owns (held' reply) st Q) : (tryCall c >>= f).Owns held st Q := by
  intro es out played
  obtain ⟨reply, rest, rfl, following⟩ := Program.plays_perform_iff.mp played
  obtain ⟨held'', onward, ended⟩ := next reply rest out following
  exact ⟨held'', (passes reply).append onward, ended⟩

/-- A call that has nothing to do with handles. -/
theorem afterTry {c : NativeCall} {f : c.Reply → Stepping β}
    (other : (EvalOp.native c).pins = false) (next : ∀ reply, (f reply).Owns held st Q) :
    (tryCall c >>= f).Owns held st Q :=
  afterReply _ (fun _ => .of_not_pins (List.forall_mem_singleton.mpr other)) next

end Owns

/-- The identity that a step keeps is the one handle there is, and stays so. -/
def Keeps (kept : Option RemoteValue) (p : Stepping α) : Prop :=
  ∀ st : StepState, st.identity? = kept →
    p.Owns kept.toList st fun _ st' held' => st'.identity? = kept ∧ held' = kept.toList

namespace Keeps

variable {kept : Option RemoteValue}

theorem pure (a : α) : Keeps kept (Pure.pure a : Stepping α) := fun _ same => .pure ⟨same, rfl⟩

theorem throw (e : EngineError) : Keeps kept (MonadExcept.throw e : Stepping α) :=
  fun _ same => .throw ⟨same, rfl⟩

theorem bind {p : Stepping α} {f : α → Stepping β} (first : p.Keeps kept)
    (second : ∀ a, (f a).Keeps kept) : (p >>= f).Keeps kept := by
  intro st same
  refine (first st same).bind ?_ fun _ _ _ holds => holds
  intro a st' held' holds
  obtain ⟨same', rfl⟩ := holds
  exact second a st' same'

theorem set {st : StepState} (same : st.identity? = kept) :
    Keeps kept (MonadStateOf.set st : Stepping PUnit) :=
  fun _ _ => .set ⟨same, rfl⟩

theorem tryCall {c : NativeCall} (other : (EvalOp.native c).pins = false) :
    Keeps kept (Stepping.tryCall c) := by
  intro st same es out played
  obtain ⟨reply, rest, rfl, following⟩ := Program.plays_perform_iff.mp played
  obtain ⟨rfl, rfl⟩ := Program.plays_done_iff.mp following
  exact ⟨_, .of_not_pins (List.forall_mem_singleton.mpr other), same, rfl⟩

theorem call {c : NativeCall} (other : (EvalOp.native c).pins = false) :
    Keeps kept (Stepping.call c) := by
  intro st same es out played
  obtain ⟨reply, rest, rfl, following⟩ := Program.plays_perform_iff.mp played
  obtain ⟨rfl, rfl⟩ := Program.plays_done_iff.mp following
  exact ⟨_, .of_not_pins (List.forall_mem_singleton.mpr other), same, rfl⟩

theorem tryEval {p : Eval α} (evaluates : Eval.Evaluates p.run) :
    Keeps kept (Stepping.tryEval p) := by
  intro st same es out played
  obtain ⟨es₁, ⟨result, st'⟩, es₂, left, right, rfl⟩ := Program.plays_bind_iff.mp played
  obtain ⟨es₃, a, es₄, evaluated, ended, rfl⟩ := Program.plays_bind_iff.mp left
  obtain ⟨rfl, same'⟩ := Program.plays_done_iff.mp ended
  obtain ⟨rfl, rfl⟩ := Program.plays_done_iff.mp right
  cases same'
  refine ⟨_, ?_, same, rfl⟩
  rw [List.append_nil, List.append_nil]
  exact .of_not_pins fun x among => EvalOp.pins_of_evaluates (evaluates es₃ _ evaluated x among)

end Keeps

end Stepping

namespace Step

open Stepping

variable {kept : Option RemoteValue} {st : StepState} (ctx : StepContext) (thread : ThreadId)

/-! ## Parts that leave the identity alone -/

theorem keeps_deactivate (b : NativeBreakpointId) : (deactivate b).Keeps kept :=
  .bind (.tryCall rfl) fun _ => .pure _

theorem keeps_issue (kind : StepKind) (mode : StepMode) : (issue thread kind mode).Keeps none :=
  .bind (.call rfl) fun _ => .set rfl

theorem keeps_startAt (kind : StepKind) (method : MethodRef) (offset : UInt32) :
    (startAt ctx thread kind method offset).Keeps none := by
  unfold startAt
  dsimp only
  split
  · split
    · exact keeps_issue thread .out .out
    · split
      · refine .bind (.call rfl) fun b => ?_
        exact .bind (.call rfl) fun _ => .set rfl
      · exact keeps_issue thread kind _
  · exact keeps_issue thread kind _

theorem keeps_again (kind : StepKind) (into : Bool) : (again ctx thread kind into).Keeps none := by
  refine .bind (.call rfl) fun frames => ?_
  exact .bind (keeps_issue thread kind _) fun _ => .pure _

theorem keeps_continuation (landing : Option (MethodRef × UInt32))
    (location : Option SourceLocation) (reason : StepReason) :
    (continuation ctx landing location reason).Keeps kept := by
  unfold continuation
  split
  · split
    · exact .pure _
    · split
      · refine .bind (.call rfl) fun info => ?_
        split
        · exact .pure _
        · exact .pure _
      · exact .pure _
  · exact .pure _

theorem keeps_identity : (identity? ctx thread).Keeps kept := by
  refine .bind (.tryEval (Eval.orderly_fetchIdentity ctx.limit thread).evaluates) fun found => ?_
  cases found with
  | ok id => exact .pure _
  | error e => exact .pure _

theorem keeps_isContinuation (origin : ThreadId) (identity : Option RemoteValue) :
    (isContinuation ctx thread origin identity).Keeps kept := by
  unfold isContinuation
  split
  · exact .pure true
  · split
    · exact .pure true
    · refine .bind (.call rfl) fun expected => ?_
      refine .bind (keeps_identity ctx thread) fun current => ?_
      cases current with
      | none => exact .pure false
      | some current => exact .bind (.call rfl) fun address => .pure _

/-! ## Parts that make a handle or let one go -/

theorem owns_release (v : RemoteValue) :
    (release v).Owns [v] st fun r st' held' => r = .ok () ∧ st' = st ∧ held' = [] :=
  .afterReply _ (fun _ => .single rfl) fun _ => .pure ⟨rfl, rfl, rfl⟩

theorem owns_releaseAll (identity : Option RemoteValue) :
    (identity.forM release).Owns identity.toList st fun r st' held' =>
      r = .ok ⟨⟩ ∧ st' = st ∧ held' = [] := by
  cases identity with
  | none => exact .pure ⟨rfl, rfl, rfl⟩
  | some v => exact owns_release v

/-- A step that is over lets its identity go. -/
theorem owns_finish :
    finish.Owns st.identity?.toList st fun r st' held' =>
      r = .ok () ∧ st' = .idle ∧ held' = [] := by
  refine .afterModify ?_
  cases st with
  | idle => exact .pure ⟨rfl, rfl, rfl⟩
  | stepping thread kind => exact .pure ⟨rfl, rfl, rfl⟩
  | awaitingYield thread kind method b resumeOffset =>
      exact .afterTry rfl fun _ => .pure ⟨rfl, rfl, rfl⟩
  | awaitingResume origin kind b identity =>
      have deactivated : (deactivate b).Owns identity.toList .idle fun r st' held' =>
          r = .ok () ∧ st' = .idle ∧ held' = identity.toList :=
        .afterTry rfl fun _ => .pure ⟨rfl, rfl, rfl⟩
      refine deactivated.bind ?_ ?_
      · intro _ st' held' holds
        obtain ⟨-, rfl, rfl⟩ := holds
        exact owns_releaseAll identity
      · intro e st' held' holds
        cases holds.1

theorem keeps_finish : finish.Keeps none := by
  intro st same
  have finished : finish.Owns st.identity?.toList st _ := owns_finish
  rw [same] at finished
  refine finished.mono ?_
  intro r st' held' holds
  obtain ⟨-, rfl, rfl⟩ := holds
  exact ⟨rfl, rfl⟩

/-- An identity that was pinned is a handle to take care of. -/
theorem owns_pinIdentity (same : st.identity? = none) :
    (pinIdentity ctx thread).Owns [] st fun r st' held' =>
      st'.identity? = none ∧ held' = (r.toOption.getD none).toList := by
  refine (keeps_identity ctx thread st same).bind ?_ fun _ _ _ holds => holds
  intro found st' held' holds
  obtain ⟨same', rfl⟩ := holds
  cases found with
  | none => exact .pure ⟨same', rfl⟩
  | some id =>
      refine .afterReply (fun reply => reply.toOption.toList) ?_ fun reply => ?_
      · intro reply
        cases reply with
        | ok handle => exact .single rfl
        | error e => exact .single rfl
      · cases reply with
        | ok handle => exact .pure ⟨same', rfl⟩
        | error e => exact .pure ⟨same', rfl⟩

/-- An operation leaves no handle but the identity of the step in flight. -/
def Settles {α : Type} (held : List RemoteValue) (p : Stepping α) (st : StepState) : Prop :=
  p.Owns held st fun _ st' held' => held' = st'.identity?.toList

theorem settles_of_keeps {α : Type} {p : Stepping α} (keeps : p.Keeps kept)
    (same : st.identity? = kept) : Settles kept.toList p st := by
  refine (keeps st same).mono ?_
  intro r st' held' holds
  obtain ⟨same', rfl⟩ := holds
  rw [same']

theorem Settles.bind {α β : Type} {p : Stepping α} {f : α → Stepping β} {held : List RemoteValue}
    (first : Settles held p st) (second : ∀ a st', Settles st'.identity?.toList (f a) st') :
    Settles held (p >>= f) st := by
  refine Owns.bind first ?_ fun _ _ _ holds => holds
  intro a st' held' holds
  subst holds
  exact second a st'

/-- The handle goes into the step that waits for the method to resume, or it is let go. -/
theorem settles_onYield (kind : StepKind) (method : MethodRef) (b : NativeBreakpointId)
    (resumeOffset : UInt32) (same : st.identity? = none) :
    Settles [] (onYield ctx thread kind method b resumeOffset) st := by
  have nothing {st' : StepState} {held' : List RemoteValue}
      (holds : st'.identity? = none ∧ held' = []) : held' = st'.identity?.toList := by
    rw [holds.1, holds.2]
    rfl
  refine (Keeps.call rfl st same).bind ?_ fun _ _ _ => nothing
  rintro _ st₁ _ ⟨same₁, rfl⟩
  refine (keeps_deactivate b st₁ same₁).bind ?_ fun _ _ _ => nothing
  rintro _ st₂ _ ⟨same₂, rfl⟩
  refine (owns_pinIdentity ctx thread same₂).bind ?_ fun _ _ _ => nothing
  rintro identity st₃ _ ⟨same₃, rfl⟩
  refine .afterTry rfl fun reply => ?_
  cases reply with
  | ok resume => exact .afterSet (.pure rfl)
  | error e =>
      refine (owns_releaseAll identity).bind ?_ ?_
      · rintro _ st₄ _ ⟨-, rfl, rfl⟩
        exact .throw (by rw [same₃]; rfl)
      · rintro e' st₄ held' ⟨failed, -, -⟩
        cases failed

theorem settles_onResume (kind : StepKind) :
    Settles st.identity?.toList (onResume ctx thread kind) st := by
  refine owns_finish.bind ?_ ?_
  · rintro _ st' _ ⟨-, rfl, rfl⟩
    refine settles_of_keeps (?_ : Stepping.Keeps none _) rfl
    refine .bind (.call rfl) fun frames => ?_
    dsimp only
    split
    · exact .pure _
    · exact keeps_again ctx thread kind false
  · rintro e st' held' ⟨failed, -, -⟩
    cases failed

theorem settles_onBreakpoint (hit : NativeBreakpointId) :
    Settles st.identity?.toList (onBreakpoint ctx thread hit) st := by
  refine .afterGet ?_
  cases st with
  | idle => exact .pure rfl
  | stepping origin kind => exact .pure rfl
  | awaitingYield origin kind method b resumeOffset =>
      dsimp only
      split
      · exact .pure rfl
      · split
        · exact .pure rfl
        · exact Settles.bind (settles_onYield ctx thread kind method b resumeOffset rfl)
            fun _ _ => .pure rfl
  | awaitingResume origin kind b identity =>
      dsimp only
      split
      · exact .pure rfl
      · refine Settles.bind (settles_of_keeps (keeps_isContinuation ctx thread origin identity) rfl)
          fun continues st' => ?_
        cases continues with
        | true => exact Settles.bind (settles_onResume ctx thread kind) fun _ _ => .pure rfl
        | false => exact .pure rfl

/-- A step that waits for its method to resume has no native step that could end. -/
theorem settles_onStepComplete (reason : StepReason) :
    Settles st.identity?.toList (onStepComplete ctx thread reason) st := by
  unfold onStepComplete
  extract_lets go
  have keeps_go (kind : StepKind) : (go kind).Keeps none := by
    refine .bind (.call rfl) fun frames => ?_
    refine .bind (keeps_continuation ctx _ _ reason) fun onward => ?_
    cases onward with
    | some into => exact keeps_again ctx thread kind into
    | none => exact .bind keeps_finish fun _ => .pure _
  refine .afterGet ?_
  cases st with
  | idle => exact .pure rfl
  | stepping origin kind =>
      dsimp only
      split
      · exact settles_of_keeps (keeps_go kind) rfl
      · exact .pure rfl
  | awaitingYield origin kind method b resumeOffset =>
      dsimp only
      split
      · refine settles_of_keeps (?_ : Stepping.Keeps none _) rfl
        exact .bind (keeps_deactivate b) fun _ => .bind (.set rfl) fun _ => keeps_go kind
      · exact .pure rfl
  | awaitingResume origin kind b identity => exact .pure rfl

theorem settles_start (kind : StepKind) :
    Settles st.identity?.toList (start ctx thread kind) st := by
  refine .afterGet ?_
  split
  · exact .throw rfl
  · next inactive =>
      rw [StepState.eq_idle inactive]
      refine settles_of_keeps (?_ : Stepping.Keeps none _) rfl
      refine .bind (.call rfl) fun frames => ?_
      split
      · exact keeps_issue thread .out .out
      · split
        · exact keeps_issue thread .out .out
        · exact keeps_startAt ctx thread kind _ _

theorem settles_finish : Settles st.identity?.toList finish st := by
  refine owns_finish.mono ?_
  rintro r st' held' ⟨-, rfl, rfl⟩
  rfl

theorem settles_cancel : Settles st.identity?.toList cancel st := by
  refine .afterGet ?_
  cases st with
  | idle => exact .pure rfl
  | stepping thread kind => exact .afterTry rfl fun _ => settles_finish
  | awaitingYield thread kind method b resumeOffset => exact .afterTry rfl fun _ => settles_finish
  | awaitingResume thread kind b identity => exact settles_finish

/-- Whatever an operation finds and whatever fails in it, it leaves no handle but the identity of
the step in flight. -/
theorem settles_program (command : StepCommand) :
    Settles st.identity?.toList (command.program ctx) st := by
  cases command with
  | start thread kind => exact settles_start ctx thread kind
  | complete thread reason =>
      exact Settles.bind (settles_onStepComplete ctx thread reason) fun _ _ => .pure rfl
  | hit thread b => exact Settles.bind (settles_onBreakpoint ctx thread b) fun _ _ => .pure rfl
  | cancel => exact settles_cancel

theorem owns_drop : drop.Owns st.identity?.toList st fun _ _ held' => held' = [] := by
  refine .afterModify ?_
  cases st with
  | idle => exact .pure rfl
  | stepping thread kind => exact .pure rfl
  | awaitingYield thread kind method b resumeOffset => exact .pure rfl
  | awaitingResume thread kind b identity =>
      cases identity with
      | none => exact .pure rfl
      | some v => exact (owns_release v).mono fun _ _ _ holds => holds.2.2

end Step

/-! ## Histories -/

/-- Operations one after the other, of which any may fail. -/
inductive StepHistory : StepState → List StepCall → StepState → Prop where
  | nil (st : StepState) : StepHistory st [] st
  | cons {st st' st'' : StepState} {call : StepCall} {rest : List StepCall} :
      call.Happens st st' → StepHistory st' rest st'' → StepHistory st (call :: rest) st''

/-- What the operations asked of the target, in order. -/
def transcripts (calls : List StepCall) : List (Exchange evalEffect) :=
  calls.flatMap StepCall.transcript

namespace StepHistory

variable {st st' : StepState} {calls : List StepCall}

/-- What is kept between two operations is the identity of the step in flight. -/
theorem passesOn (history : StepHistory st calls st') :
    PassesOn st.identity?.toList (transcripts calls) st'.identity?.toList := by
  induction history with
  | nil st => exact .nil _
  | @cons st st' st'' call rest happens _ inductionHypothesis =>
      obtain ⟨held, passes, settled⟩ :=
        Step.settles_program call.context call.command call.transcript _ happens
      subst settled
      exact passes.append inductionHypothesis

theorem split (history : StepHistory st calls st') (n : Nat) :
    ∃ now, StepHistory st (calls.take n) now ∧ StepHistory now (calls.drop n) st' := by
  induction history generalizing n with
  | nil st =>
      rw [List.take_nil, List.drop_nil]
      exact ⟨st, .nil st, .nil st⟩
  | cons happens later inductionHypothesis =>
      cases n with
      | zero => exact ⟨_, .nil _, .cons happens later⟩
      | succ n =>
          obtain ⟨now, before, after⟩ := inductionHypothesis n
          exact ⟨now, .cons happens before, after⟩

end StepHistory

theorem append_diff_left {α : Type} [DecidableEq α] (gone rest : List α) :
    (gone ++ rest).diff gone = rest := by
  induction gone with
  | nil => exact List.diff_nil rest
  | cons a gone inductionHypothesis =>
      rw [List.cons_append, List.diff_cons, List.erase_cons_head, inductionHypothesis]

/-- With nothing kept before, what was made and not let go is what is kept afterwards. -/
theorem PassesOn.stillPinned_eq {es : List (Exchange evalEffect)} {held : List RemoteValue}
    (passes : PassesOn [] es held) : stillPinned es = held := by
  have account : pinned es = unpinned es ++ held := passes.account
  rw [stillPinned, account, append_diff_left]

/-- However operations follow each other and fail, every handle that the target has made is let go
once, in order and not before it was made, when the step controller is dropped at the end. After
each operation the identity of the step in flight is the only handle left. -/
theorem released_once {calls : List StepCall} {st : StepState}
    {last : List (Exchange evalEffect)} {out : Except EngineError Unit × StepState}
    (history : StepHistory .idle calls st) (dropped : (Step.drop.run st).Plays last out) :
    unpinned (transcripts calls ++ last) = pinned (transcripts calls ++ last) ∧
    (∀ before, before <+: transcripts calls ++ last → unpinned before <+: pinned before) ∧
    ∀ n, ∃ now, StepHistory .idle (calls.take n) now ∧ StepHistory now (calls.drop n) st ∧
      stillPinned (transcripts (calls.take n)) = now.identity?.toList := by
  obtain ⟨held, lets, nothing⟩ := Step.owns_drop last out dropped
  subst nothing
  have whole : PassesOn [] (transcripts calls ++ last) [] := history.passesOn.append lets
  refine ⟨?_, whole.timely, fun n => ?_⟩
  · have account := whole.account
    rw [List.append_nil] at account
    exact account.symm
  · obtain ⟨now, before, after⟩ := history.split n
    exact ⟨now, before, after, before.passesOn.stillPinned_eq⟩

section Invocation

def object (n : UInt64) : RemoteValue := ⟨⟨n⟩, .object, "Machine"⟩

/-- The type of the state machine and of its builder alike. -/
def machineType : TypeInfo :=
  ⟨⟨1, 2, "Machine"⟩, none, false, [⟨3, Step.builderField, "Machine", false⟩],
    [⟨Step.identityProperty, "System.Object", some ⟨1, 5⟩, false⟩], []⟩

/-- Every thread is at the await. The receiver, the builder in it, the identity of the invocation
and the handle for that are the objects 1 to 4, and breakpoints are numbered by their offsets. -/
def replyInInvocation : (op : EvalOp) → op.Reply
  | .native c => match c with
    | .frames _ => .ok [⟨.managed, some ⟨1, 34⟩, 10⟩]
    | .arguments .. => .ok [⟨"this", object 1⟩]
    | .typeOf _ => .ok machineType.type
    | .typeInfo _ => .ok machineType
    | .fieldValue .. => .ok (object 2)
    | .beginCall .. => .ok ⟨7⟩
    | .createHandle _ => .ok (object 4)
    | .objectAddress v => .ok v.id.number
    | .createBreakpoint _ offset => .ok ⟨offset⟩
    | .step .. | .cancelStep _ | .setBreakpointActive .. | .continueProcess => .ok ()
    | _ => .error .connectionClosed
  | .register .. => (0 : Nat)
  | .cancel _ => ()
  | .wait .. => some (.outcome (.completed (some (object 3))))

def StepCommand.inInvocation (command : StepCommand) (st : StepState) : StepCall × StepState :=
  let (es, _, result, st') :=
    ((command.program awaiting).run st).simulate (fun s op => (replyInInvocation op, s)) ()
  (⟨awaiting, command, es, result⟩, st')

theorem StepCommand.happens_inInvocation (command : StepCommand) (st : StepState) :
    (command.inInvocation st).1.Happens st (command.inInvocation st).2 :=
  Program.plays_simulate _ _ ()

def waitingForYield : StepState := .awaitingYield 1 .over ⟨1, 34⟩ ⟨12⟩ 30

def keepingIdentity : StepState := .awaitingResume 1 .over ⟨30⟩ (some (object 4))

/-- A step over the await yields, and another invocation passes the point where it would resume. -/
def acrossAwait : List StepCall :=
  [((StepCommand.start 1 .over).inInvocation .idle).1,
    ((StepCommand.hit 1 ⟨12⟩).inInvocation waitingForYield).1,
    ((StepCommand.hit 2 ⟨30⟩).inInvocation keepingIdentity).1]

theorem acrossAwait_happens : StepHistory .idle acrossAwait keepingIdentity := by
  have started : StepCall.Happens _ .idle waitingForYield :=
    StepCommand.happens_inInvocation (.start 1 .over) .idle
  have yielded : StepCall.Happens _ waitingForYield keepingIdentity :=
    StepCommand.happens_inInvocation (.hit 1 ⟨12⟩) waitingForYield
  have passed : StepCall.Happens _ keepingIdentity keepingIdentity :=
    StepCommand.happens_inInvocation (.hit 2 ⟨30⟩) keepingIdentity
  exact .cons started (.cons yielded (.cons passed (.nil _)))

/-- The handle that is made at the yield is let go when the step controller is dropped, even though
the target complains about that. -/
theorem released_once_acrossAwait : ∃ last out,
    (Step.drop.run keepingIdentity).Plays last out ∧
    stillPinned (transcripts (acrossAwait.take 3)) = [object 4] ∧
    unpinned (transcripts acrossAwait ++ last) = [object 4] := by
  have dropped := Program.plays_simulate (fun s op => (replyInInvocation op, s))
    (Step.drop.run keepingIdentity) ()
  obtain ⟨same, -, -⟩ := released_once acrossAwait_happens dropped
  refine ⟨_, _, dropped, by decide +kernel, same.trans ?_⟩
  decide +kernel

end Invocation

end ManagedDebugger
