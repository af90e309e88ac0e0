import ManagedDebugger.Proofs.Step.Cascade
import ManagedDebugger.Proofs.Step.Pinned

/-!
# Which invocation a step waits for

Other invocations of a method pass the point where it resumes, on any threads and any number of
times, while a step waits there for its own one. The step tells them apart by what each hit of its
breakpoint finds out, and what is found out is all in the transcript of the hit. As long as it is
not the step's own invocation nothing changes; the first hit that is one of it, or that no identity
tells from it, ends the wait.
-/

namespace ManagedDebugger

namespace Exchange

abbrev addressOf (v : RemoteValue) (reply : Except NativeError UInt64) : Exchange evalEffect :=
  ⟨.native (.objectAddress v), reply⟩

abbrev dropHandle (v : RemoteValue) (reply : Except NativeError Unit) : Exchange evalEffect :=
  ⟨.native (.releaseHandle v), reply⟩

abbrev framesOf (thread : ThreadId) (reply : Except NativeError (List NativeFrame)) :
    Exchange evalEffect := ⟨.native (.frames thread), reply⟩

end Exchange

namespace Step

open Stepping Exchange

variable {ctx : StepContext} {thread origin : ThreadId} {kind : StepKind} {b : NativeBreakpointId}
  {identity : Option RemoteValue} {st : StepState}

/-- What a hit finds out about the invocation on its thread: whether it is the one waited for, or
that an address was refused. Nothing has to be found out without an identity, nor on the thread
where the method has yielded. -/
inductive FindsOut (ctx : StepContext) (thread origin : ThreadId) :
    Option RemoteValue → List (Exchange evalEffect) → Except NativeError Bool → Prop where
  | notPinned : FindsOut ctx thread origin none [] (.ok true)
  | origin (pinned : RemoteValue) : origin = thread →
      FindsOut ctx thread origin (some pinned) [] (.ok true)
  | pinnedRefused (pinned : RemoteValue) (e : NativeError) : origin ≠ thread →
      FindsOut ctx thread origin (some pinned) [addressOf pinned (.error e)] (.error e)
  /-- The identity on the thread cannot be read: reading fails, or comes to nothing. -/
  | unread (pinned : RemoteValue) (expected : UInt64) {es : List (Exchange evalEffect)}
      {found : Except EvalError (Option RemoteValue)} : origin ≠ thread →
      (fetchIdentity ctx.limit thread).run.Plays es found →
      (∀ current, found ≠ .ok (some current)) →
      FindsOut ctx thread origin (some pinned) (addressOf pinned (.ok expected) :: es) (.ok false)
  | currentRefused (pinned current : RemoteValue) (expected : UInt64)
      {es : List (Exchange evalEffect)} (e : NativeError) : origin ≠ thread →
      (fetchIdentity ctx.limit thread).run.Plays es (.ok (some current)) →
      FindsOut ctx thread origin (some pinned)
        (addressOf pinned (.ok expected) :: es ++ [addressOf current (.error e)]) (.error e)
  | compared (pinned current : RemoteValue) (expected address : UInt64)
      {es : List (Exchange evalEffect)} : origin ≠ thread →
      (fetchIdentity ctx.limit thread).run.Plays es (.ok (some current)) →
      FindsOut ctx thread origin (some pinned)
        (addressOf pinned (.ok expected) :: es ++ [addressOf current (.ok address)])
        (.ok (address == expected))

theorem plays_identity_iff {es : List (Exchange evalEffect)}
    {out : Except EngineError (Option RemoteValue) × StepState} :
    ((identity? ctx thread).run st).Plays es out ↔
      ∃ found, (fetchIdentity ctx.limit thread).run.Plays es found ∧
        out = (.ok (found.toOption.getD none), st) := by
  constructor
  · intro played
    obtain ⟨e, st', failed, -⟩ | ⟨first, found, st', rest, rfl, read, ended⟩ :=
      plays_bind_iff.mp played
    · obtain ⟨found, -, same⟩ := plays_tryEval_iff.mp failed
      cases same
    obtain ⟨_, evaluated, same⟩ := plays_tryEval_iff.mp read
    cases same
    cases found with
    | ok id =>
        obtain ⟨rfl, rfl⟩ := plays_pure_iff.mp ended
        rw [List.append_nil]
        exact ⟨_, evaluated, rfl⟩
    | error e =>
        obtain ⟨rfl, rfl⟩ := plays_pure_iff.mp ended
        rw [List.append_nil]
        exact ⟨_, evaluated, rfl⟩
  · rintro ⟨found, evaluated, rfl⟩
    refine plays_bind_iff.mpr (.inr ⟨es, found, st, [], (List.append_nil es).symm,
      plays_tryEval_iff.mpr ⟨found, evaluated, rfl⟩, ?_⟩)
    cases found with
    | ok id => exact .done _
    | error e => exact .done _

theorem findsOut_of_plays_sameInvocation {pinned : RemoteValue} {es : List (Exchange evalEffect)}
    {out : Except EngineError Bool × StepState} (other : origin ≠ thread)
    (played : ((sameInvocation ctx thread pinned).run st).Plays es out) :
    ∃ verdict, FindsOut ctx thread origin (some pinned) es verdict ∧
      out = (verdict.mapError .native, st) := by
  obtain ⟨e, rfl, rfl⟩ | ⟨expected, rest, rfl, asked⟩ := plays_call_bind_iff.mp played
  · exact ⟨.error e, .pinnedRefused pinned e other, rfl⟩
  obtain ⟨e, st', failed, -⟩ | ⟨reads, found?, st', last, rfl, read, compared⟩ :=
    plays_bind_iff.mp asked
  · obtain ⟨found, -, same⟩ := plays_identity_iff.mp failed
    cases same
  obtain ⟨found, evaluated, same⟩ := plays_identity_iff.mp read
  cases same
  cases current : found.toOption.getD none with
  | none =>
      rw [current] at compared
      obtain ⟨rfl, rfl⟩ := plays_pure_iff.mp compared
      rw [List.append_nil]
      refine ⟨.ok false, .unread pinned expected other evaluated ?_, rfl⟩
      rintro current' rfl
      cases current
  | some current' =>
      obtain rfl : found = .ok (some current') := by
        cases found with
        | ok id => exact congrArg Except.ok current
        | error e => cases current
      obtain ⟨e, rfl, rfl⟩ | ⟨address, none, rfl, ended⟩ := plays_call_bind_iff.mp compared
      · exact ⟨.error e, .currentRefused pinned current' expected e other evaluated, rfl⟩
      obtain ⟨rfl, rfl⟩ := plays_pure_iff.mp ended
      exact ⟨_, .compared pinned current' expected address other evaluated, rfl⟩

/-- What a hit finds out decides whether it is the continuation. -/
theorem findsOut_of_plays {es : List (Exchange evalEffect)}
    {out : Except EngineError Bool × StepState}
    (played : ((isContinuation ctx thread origin identity).run st).Plays es out) :
    ∃ verdict, FindsOut ctx thread origin identity es verdict ∧
      out = (verdict.mapError .native, st) := by
  cases identity with
  | none =>
      obtain ⟨rfl, rfl⟩ := plays_pure_iff.mp played
      exact ⟨.ok true, .notPinned, rfl⟩
  | some pinned =>
      by_cases same : origin = thread
      · rw [isContinuation, if_pos same] at played
        obtain ⟨rfl, rfl⟩ := plays_pure_iff.mp played
        exact ⟨.ok true, .origin pinned same, rfl⟩
      · rw [isContinuation, if_neg same] at played
        exact findsOut_of_plays_sameInvocation same played

/-- What happens once the identity on the thread was read. -/
theorem plays_sameInvocation_of_read {pinned : RemoteValue} {expected : UInt64}
    {es last : List (Exchange evalEffect)} {found : Except EvalError (Option RemoteValue)}
    {out : Except EngineError Bool × StepState}
    (read : (fetchIdentity ctx.limit thread).run.Plays es found)
    (ended : ((match found.toOption.getD none with
      | none => pure false
      | some current => do
        let address ← Stepping.call (.objectAddress current)
        return address == expected : Stepping Bool).run st).Plays last out) :
    ((sameInvocation ctx thread pinned).run st).Plays
      (addressOf pinned (.ok expected) :: (es ++ last)) out := by
  refine plays_call_bind_iff.mpr (.inr ⟨expected, es ++ last, rfl, ?_⟩)
  exact plays_bind_iff.mpr
    (.inr ⟨es, _, st, last, rfl, plays_identity_iff.mpr ⟨found, read, rfl⟩, ended⟩)

theorem FindsOut.plays {es : List (Exchange evalEffect)} {verdict : Except NativeError Bool}
    (finds : FindsOut ctx thread origin identity es verdict) (st : StepState) :
    ((isContinuation ctx thread origin identity).run st).Plays es
      (verdict.mapError .native, st) := by
  cases finds with
  | notPinned => exact .done _
  | origin pinned same =>
      rw [isContinuation, if_pos same]
      exact .done _
  | pinnedRefused pinned e other =>
      rw [isContinuation, if_neg other]
      exact .perform (.done _)
  | @unread pinned expected es found other read none =>
      rw [isContinuation, if_neg other, ← List.append_nil es]
      refine plays_sameInvocation_of_read read ?_
      have nothing : found.toOption.getD .none = .none := by
        rcases found with e | _ | current
        · rfl
        · rfl
        · exact absurd rfl (none current)
      rw [nothing]
      exact .done _
  | currentRefused pinned current expected e other read =>
      rw [isContinuation, if_neg other]
      exact plays_sameInvocation_of_read read (.perform (.done _))
  | compared pinned current expected address other read =>
      rw [isContinuation, if_neg other]
      exact plays_sameInvocation_of_read read (.perform (.done _))

/-- Nothing is armed in the target or taken back, and no handle is made or let go. -/
def Harmless (es : List (Exchange evalEffect)) : Prop :=
  ∀ x ∈ es, x.op.arms = false ∧ x.op.pins = false

theorem FindsOut.harmless {es : List (Exchange evalEffect)} {verdict : Except NativeError Bool}
    (finds : FindsOut ctx thread origin identity es verdict) : Harmless es := by
  have evaluated {es : List (Exchange evalEffect)} {found : Except EvalError (Option RemoteValue)}
      (read : (fetchIdentity ctx.limit thread).run.Plays es found) : Harmless es := by
    intro x among
    have evaluates := (Eval.orderly_fetchIdentity ctx.limit thread).evaluates es _ read x among
    exact ⟨EvalOp.arms_of_evaluates evaluates, EvalOp.pins_of_evaluates evaluates⟩
  cases finds with
  | notPinned => exact List.forall_mem_nil _
  | origin pinned same => exact List.forall_mem_nil _
  | pinnedRefused pinned e other => exact List.forall_mem_singleton.mpr ⟨rfl, rfl⟩
  | unread pinned expected other read none =>
      exact List.forall_mem_cons.mpr ⟨⟨rfl, rfl⟩, evaluated read⟩
  | currentRefused pinned current expected e other read =>
      refine List.forall_mem_append.mpr ⟨List.forall_mem_cons.mpr ⟨⟨rfl, rfl⟩, evaluated read⟩, ?_⟩
      exact List.forall_mem_singleton.mpr ⟨rfl, rfl⟩
  | compared pinned current expected address other read =>
      refine List.forall_mem_append.mpr ⟨List.forall_mem_cons.mpr ⟨⟨rfl, rfl⟩, evaluated read⟩, ?_⟩
      exact List.forall_mem_singleton.mpr ⟨rfl, rfl⟩

/-- The identity that was kept is let go, if there is one. -/
inductive LetsGo : Option RemoteValue → List (Exchange evalEffect) → Prop where
  | notPinned : LetsGo none []
  | pinned (v : RemoteValue) (reply : Except NativeError Unit) :
      LetsGo (some v) [dropHandle v reply]

/-- How a step goes on that has come to the place where its method resumes. -/
inductive Arrives (ctx : StepContext) (thread : ThreadId) (kind : StepKind) :
    List (Exchange evalEffect) → Except EngineError StepOutcome → StepState → Prop where
  | unread (e : NativeError) :
      Arrives ctx thread kind [framesOf thread (.error e)] (.error (.native e)) .idle
  | stops (frames : List NativeFrame) : ctx.source? frames ≠ none →
      Arrives ctx thread kind [framesOf thread (.ok frames)] (.ok (.stop thread)) .idle
  | lost (frames : List NativeFrame) (e : NativeError) : ctx.source? frames = none →
      Arrives ctx thread kind [framesOf thread (.ok frames), framesOf thread (.error e)]
        (.error (.native e)) .idle
  | refused (frames frames' : List NativeFrame) (mode : StepMode) (e : NativeError) :
      ctx.source? frames = none → mode.isOverOrOut = true →
      Arrives ctx thread kind
        [framesOf thread (.ok frames), framesOf thread (.ok frames'), step thread mode (.error e)]
        (.error (.native e)) .idle
  | stepsOn (frames frames' : List NativeFrame) (mode : StepMode) :
      ctx.source? frames = none → mode.isOverOrOut = true →
      Arrives ctx thread kind
        [framesOf thread (.ok frames), framesOf thread (.ok frames'), step thread mode (.ok ())]
        (.ok .resume) (.stepping thread kind)

theorem letsGo_of_plays_finish {es : List (Exchange evalEffect)}
    {out : Except EngineError Unit × StepState}
    (played : (finish.run (.awaitingResume origin kind b identity)).Plays es out) :
    ∃ off released, es = switchOff b off :: released ∧ LetsGo identity released ∧
      out = (.ok (), .idle) := by
  obtain ⟨off, released, rfl, switchedOff⟩ := Program.plays_perform_iff.mp played
  cases identity with
  | none =>
      obtain ⟨rfl, rfl⟩ := Program.plays_done_iff.mp switchedOff
      exact ⟨off, [], rfl, .notPinned, rfl⟩
  | some v =>
      obtain ⟨reply, rest, rfl, ended⟩ := Program.plays_perform_iff.mp switchedOff
      obtain ⟨rfl, rfl⟩ := Program.plays_done_iff.mp ended
      exact ⟨off, _, rfl, .pinned v reply, rfl⟩

/-- The end of the wait: the breakpoint goes and the identity with it, before anything else. -/
theorem arrives_of_plays {kind' : StepKind} {es : List (Exchange evalEffect)}
    {r : Except EngineError StepOutcome} {st' : StepState}
    (played : ((onResume ctx thread kind).run (.awaitingResume origin kind' b identity)).Plays es
      (r, st')) :
    ∃ off released last, es = switchOff b off :: (released ++ last) ∧
      LetsGo identity released ∧ Arrives ctx thread kind last r st' := by
  obtain ⟨e, _, failed, -⟩ | ⟨first, _, _, last, rfl, finished, resumed⟩ :=
    plays_bind_iff.mp played
  · obtain ⟨_, _, -, -, same⟩ := letsGo_of_plays_finish failed
    cases same
  obtain ⟨off, released, rfl, letsGo, same⟩ := letsGo_of_plays_finish finished
  cases same
  refine ⟨off, released, last, rfl, letsGo, ?_⟩
  obtain ⟨e, rfl, same⟩ | ⟨frames, rest, rfl, placed⟩ := plays_call_bind_iff.mp resumed
  · cases same
    exact .unread e
  cases source : ctx.source? frames with
  | some location =>
      have placed : ((pure (.stop thread) : Stepping StepOutcome).run .idle).Plays rest
          (r, st') := by
        rw [StepContext.source?] at source
        simpa only [source] using placed
      obtain ⟨rfl, same⟩ := plays_pure_iff.mp placed
      cases same
      exact .stops frames (by simp [source])
  | none =>
      have placed : ((again ctx thread kind false).run .idle).Plays rest (r, st') := by
        rw [StepContext.source?] at source
        simpa only [source] using placed
      obtain ⟨e, rfl, same⟩ | ⟨frames', issued, rfl, asked⟩ := plays_call_bind_iff.mp placed
      · cases same
        exact .lost frames e source
      obtain ⟨reply, rest', rfl, ended⟩ := Program.plays_perform_iff.mp asked
      have isOver : (ctx.onward frames' false).isOverOrOut = true := StepMode.isOverOrOut_onward _
      cases reply with
      | error e =>
          obtain ⟨rfl, same⟩ := Program.plays_done_iff.mp ended
          cases same
          exact .refused frames frames' _ e source isOver
      | ok accepted =>
          obtain ⟨rfl, same⟩ := Program.plays_done_iff.mp ended
          cases same
          exact .stepsOn frames frames' _ source isOver

section Hit

variable {reads rest : List (Exchange evalEffect)} {verdict : Except NativeError Bool}
  {r : Except EngineError (Option StepOutcome)} {st' : StepState}

theorem onBreakpoint_waiting :
    (onBreakpoint ctx thread b).run (.awaitingResume origin kind b identity) =
      (isContinuation ctx thread origin identity >>= fun continues =>
        if continues then onResume ctx thread kind >>= fun outcome => pure (some outcome)
        else pure (some .resume) : Stepping (Option StepOutcome)).run
          (.awaitingResume origin kind b identity) := by
  have own : ¬ b ≠ b := fun other => other rfl
  show (if b ≠ b then pure none else _ : Stepping (Option StepOutcome)).run _ = _
  rw [if_neg own]

theorem findsOut_of_plays_onBreakpoint {es : List (Exchange evalEffect)}
    (played : ((onBreakpoint ctx thread b).run (.awaitingResume origin kind b identity)).Plays es
      (r, st')) :
    ∃ reads rest verdict, es = reads ++ rest ∧
      FindsOut ctx thread origin identity reads verdict := by
  rw [onBreakpoint_waiting] at played
  obtain ⟨e, _, failed, -⟩ | ⟨reads, _, _, rest, rfl, found, -⟩ := plays_bind_iff.mp played
  · obtain ⟨verdict, finds, -⟩ := findsOut_of_plays failed
    exact ⟨es, [], verdict, (List.append_nil es).symm, finds⟩
  · obtain ⟨verdict, finds, -⟩ := findsOut_of_plays found
    exact ⟨reads, rest, verdict, rfl, finds⟩

/-- What is answered to a hit that is not the continuation. -/
def passing : Except NativeError Bool → Except EngineError (Option StepOutcome)
  | .ok _ => .ok (some .resume)
  | .error e => .error (.native e)

/-- Nothing else happens if it is not the continuation. -/
theorem eq_nil_of_findsOut (finds : FindsOut ctx thread origin identity reads verdict)
    (other : verdict ≠ .ok true)
    (played : ((onBreakpoint ctx thread b).run (.awaitingResume origin kind b identity)).Plays
      (reads ++ rest) (r, st')) :
    rest = [] ∧ r = passing verdict ∧ st' = .awaitingResume origin kind b identity := by
  rw [onBreakpoint_waiting] at played
  have ended := (finds.plays _).after played
  cases verdict with
  | error e =>
      obtain ⟨rfl, same⟩ := Program.plays_done_iff.mp ended
      cases same
      exact ⟨rfl, rfl, rfl⟩
  | ok continues =>
      cases continues with
      | false =>
          obtain ⟨rfl, same⟩ := Program.plays_done_iff.mp ended
          cases same
          exact ⟨rfl, rfl, rfl⟩
      | true => exact absurd rfl other

/-- The continuation ends the wait. -/
theorem arrives_of_findsOut (finds : FindsOut ctx thread origin identity reads (.ok true))
    (played : ((onBreakpoint ctx thread b).run (.awaitingResume origin kind b identity)).Plays
      (reads ++ rest) (r, st')) :
    ∃ off released last outcome, rest = switchOff b off :: (released ++ last) ∧
      LetsGo identity released ∧ Arrives ctx thread kind last outcome st' ∧
      r = outcome.map some := by
  rw [onBreakpoint_waiting] at played
  have resumed : ((onResume ctx thread kind >>= fun outcome => pure (some outcome)).run
      (.awaitingResume origin kind b identity)).Plays rest (r, st') := (finds.plays _).after played
  obtain ⟨e, _, failed, same⟩ | ⟨first, outcome, _, _, rfl, ended, nothing⟩ :=
    plays_bind_iff.mp resumed
  · cases same
    obtain ⟨off, released, last, rfl, letsGo, arrives⟩ := arrives_of_plays failed
    exact ⟨off, released, last, _, rfl, letsGo, arrives, rfl⟩
  · obtain ⟨rfl, same⟩ := plays_pure_iff.mp nothing
    cases same
    rw [List.append_nil]
    obtain ⟨off, released, last, rfl, letsGo, arrives⟩ := arrives_of_plays ended
    exact ⟨off, released, last, _, rfl, letsGo, arrives, rfl⟩

end Hit

end Step

/-! ## Hit after hit -/

/-- A hit of the breakpoint where a method resumes, in the surroundings of the moment. -/
structure ResumeHit where
  context : StepContext
  thread : ThreadId
  transcript : List (Exchange evalEffect)
  result : Except EngineError (Option StepOutcome)

/-- The hit goes like this, with the step in flight before and after it. -/
def ResumeHit.Happens (b : NativeBreakpointId) (hit : ResumeHit) (st st' : StepState) : Prop :=
  ((Step.onBreakpoint hit.context hit.thread b).run st).Plays hit.transcript (hit.result, st')

/-- Hits of one breakpoint, one after the other. -/
inductive ResumeRun (b : NativeBreakpointId) : StepState → List ResumeHit → StepState → Prop where
  | nil (st : StepState) : ResumeRun b st [] st
  | cons {st st' st'' : StepState} {hit : ResumeHit} {rest : List ResumeHit} :
      hit.Happens b st st' → ResumeRun b st' rest st'' → ResumeRun b st (hit :: rest) st''

namespace ResumeHit

open Exchange

/-- What the hit finds out, before anything else happens in it. -/
def FindsOut (hit : ResumeHit) (origin : ThreadId) (identity : Option RemoteValue)
    (verdict : Except NativeError Bool) : Prop :=
  ∃ reads rest, hit.transcript = reads ++ rest ∧
    Step.FindsOut hit.context hit.thread origin identity reads verdict

/-- The hit changes neither the step in flight nor anything in the target. -/
def PassesBy (hit : ResumeHit) (waiting now : StepState) : Prop :=
  now = waiting ∧ Step.Harmless hit.transcript

/-- The wait is over: the breakpoint goes, the identity is let go, and the step is over where there
is source, or else goes on from there on the thread of the hit. -/
def EndsWait (hit : ResumeHit) (kind : StepKind) (b : NativeBreakpointId)
    (identity : Option RemoteValue) (now : StepState) : Prop :=
  ∃ reads off released last outcome,
    hit.transcript = reads ++ switchOff b off :: (released ++ last) ∧ Step.Harmless reads ∧
    Step.LetsGo identity released ∧
    Step.Arrives hit.context hit.thread kind last outcome now ∧ hit.result = outcome.map some

variable {hit : ResumeHit} {b : NativeBreakpointId} {origin : ThreadId} {kind : StepKind}
  {identity : Option RemoteValue} {now : StepState}

theorem exists_findsOut (happens : hit.Happens b (.awaitingResume origin kind b identity) now) :
    ∃ verdict, hit.FindsOut origin identity verdict := by
  obtain ⟨reads, rest, verdict, whole, finds⟩ := Step.findsOut_of_plays_onBreakpoint happens
  exact ⟨verdict, reads, rest, whole, finds⟩

theorem passesBy_of_findsOut {verdict : Except NativeError Bool} (other : verdict ≠ .ok true)
    (happens : hit.Happens b (.awaitingResume origin kind b identity) now)
    (found : hit.FindsOut origin identity verdict) :
    hit.result = Step.passing verdict ∧
      hit.PassesBy (.awaitingResume origin kind b identity) now := by
  obtain ⟨reads, rest, whole, finds⟩ := found
  rw [Happens, whole] at happens
  obtain ⟨rfl, answer, same⟩ := Step.eq_nil_of_findsOut finds other happens
  rw [List.append_nil] at whole
  exact ⟨answer, same, whole ▸ finds.harmless⟩

theorem endsWait_of_findsOut
    (happens : hit.Happens b (.awaitingResume origin kind b identity) now)
    (continues : hit.FindsOut origin identity (.ok true)) : hit.EndsWait kind b identity now := by
  obtain ⟨reads, rest, whole, finds⟩ := continues
  rw [Happens, whole] at happens
  obtain ⟨off, released, last, outcome, rfl, letsGo, arrives, same⟩ :=
    Step.arrives_of_findsOut finds happens
  exact ⟨reads, off, released, last, outcome, whole, finds.harmless, letsGo, arrives, same⟩

theorem EndsWait.breakpoint? (ends : hit.EndsWait kind b identity now) :
    now.breakpoint? = none := by
  obtain ⟨_, _, _, _, _, -, -, -, arrives, -⟩ := ends
  cases arrives <;> rfl

end ResumeHit

section OtherInvocation

/-- As in the invocation of the handle 4, but whoever has an identity has one at an address. -/
def replyAt (address : UInt64) : (op : EvalOp) → op.Reply
  | .native (.objectAddress v) => .ok (if v = object 4 then 4 else address)
  | op => replyInInvocation op

/-- A hit on a thread of the invocation whose identity is at an address. -/
def hitAt (address : UInt64) (thread : ThreadId) (st : StepState) : ResumeHit × StepState :=
  let (es, _, result, st') :=
    ((Step.onBreakpoint awaiting thread ⟨30⟩).run st).simulate
      (fun s op => (replyAt address op, s)) ()
  (⟨awaiting, thread, es, result⟩, st')

theorem hitAt_happens (address : UInt64) (thread : ThreadId) (st : StepState) :
    (hitAt address thread st).1.Happens ⟨30⟩ st (hitAt address thread st).2 :=
  Program.plays_simulate _ _ ()

def passedOnOther : ResumeHit := (hitAt 3 2 keepingIdentity).1

def resumedOnOther : ResumeHit := (hitAt 4 3 keepingIdentity).1

end OtherInvocation

end ManagedDebugger
