import ManagedDebugger.Proofs.Step.Armed
import ManagedDebugger.Proofs.Symbol.Ranges

/-!
# Where a native step has ended

A native step may end at a place that is none for the user: in front of the code of a method that
was called, in code that is not the user's, at a place without source. If the target answers, there
are two ways on from there. The step is over, which is so exactly where there is source and the code
is the user's; or one more native step is asked for, and the step stays in flight as what it was.
-/

namespace ManagedDebugger

/-- The source of the place that the frames of a thread show. -/
def StepContext.source? (ctx : StepContext) (frames : List NativeFrame) : Option SourceLocation :=
  (topMethod? frames).bind fun (method, offset) => ctx.symbols.location? method offset

/-- What the target says of its threads and methods while it stands still. -/
structure Standstill where
  frames : ThreadId → List NativeFrame
  methodInfo : MethodRef → MethodInfo

namespace Standstill

variable (S : Standstill)

/-- No call fails, and threads and methods are as they are. -/
def Answers : Exchange evalEffect → Prop
  | ⟨.native (.frames thread), reply⟩ => reply = .ok (S.frames thread)
  | ⟨.native (.methodInfo method), reply⟩ => reply = .ok (S.methodInfo method)
  | x => EvalOp.Succeeds x

/-- The method and offset where a thread is, if it runs managed code. -/
def place? (thread : ThreadId) : Option (MethodRef × UInt32) := topMethod? (S.frames thread)

variable (ctx : StepContext) (thread : ThreadId)

/-- The source of the place where a thread is. -/
def location? : Option SourceLocation := ctx.source? (S.frames thread)

/-- The thread is in code that is not the user's. Without just-my-code there is no such code. -/
def Foreign : Prop :=
  ctx.justMyCode = true ∧
    ∃ method offset, S.place? thread = some (method, offset) ∧
      (S.methodInfo method).nonUserCode = true

/-- A call has ended in front of the code that a method with symbols has from the user. -/
def BeforeUserCode (reason : StepReason) : Prop :=
  reason = .call ∧ S.location? ctx thread = none ∧
    ∃ method offset, S.place? thread = some (method, offset) ∧ ctx.symbols.hasPoints method = true

/-- The thread is where a user may be shown that it is. -/
def Presentable : Prop := S.location? ctx thread ≠ none ∧ ¬ S.Foreign ctx thread

end Standstill

/-! ## The native step that follows -/

namespace StepMode

/-- A step into the code of calls. -/
def isInto : StepMode → Bool
  | range into .. | instruction into => into
  | out => false

/-- A step over a range of code, or out of the method. -/
def isOverOrOut : StepMode → Bool
  | range into .. => !into
  | instruction _ => false
  | out => true

/-- The native step with which a step goes on that is in a range of code, or in none. -/
def onward (into : Bool) : Option (UInt32 × UInt32) → StepMode
  | some (start, stop) => .range into start stop
  | none => if into then .instruction into else .out

theorem isInto_onward (into : Bool) (code : Option (UInt32 × UInt32)) :
    (onward into code).isInto = into := by
  cases code with
  | some range => rfl
  | none => cases into <;> rfl

theorem isOverOrOut_onward (code : Option (UInt32 × UInt32)) :
    (onward false code).isOverOrOut = true := by
  cases code with
  | some range => rfl
  | none => rfl

end StepMode

/-- The native step with which a step goes on from the place that the frames of a thread show. -/
def StepContext.onward (ctx : StepContext) (frames : List NativeFrame) (into : Bool) : StepMode :=
  .onward into ((topMethod? frames).bind fun (method, offset) => ctx.symbols.range? method offset)

/-- The native steps that are asked for, in order. -/
def stepsAsked (ops : List EvalOp) : List (ThreadId × StepMode) :=
  ops.filterMap fun
    | .native (.step thread mode) => some (thread, mode)
    | _ => none

@[simp]
theorem stepsAsked_append (first second : List EvalOp) :
    stepsAsked (first ++ second) = stepsAsked first ++ stepsAsked second :=
  List.filterMap_append

namespace Standstill

variable (S : Standstill) (ctx : StepContext) (thread : ThreadId)

/-- The native step with which a step goes on. -/
def onward (into : Bool) : StepMode := ctx.onward (S.frames thread) into

/-- A range of code that is stepped over has the place in it. -/
theorem mem_onward {into into' : Bool} {start stop : UInt32}
    (range : S.onward ctx thread into = .range into' start stop) :
    ∃ method offset size, S.place? thread = some (method, offset) ∧
      ctx.symbols.codeSize? method = some size ∧
      (offset < size → start ≤ offset ∧ offset < stop) := by
  unfold onward StepContext.onward StepMode.onward at range
  split at range
  case h_1 a b found =>
    obtain ⟨⟨method, offset⟩, here, found⟩ := Option.bind_eq_some_iff.mp found
    obtain ⟨m, known, found⟩ := Option.bind_eq_some_iff.mp found
    cases range
    obtain ⟨after, before⟩ := MethodSymbols.mem_rangeAt? found
    refine ⟨method, offset, m.codeSize, here, ?_, fun inside => ⟨after, before inside⟩⟩
    rw [SymbolTable.codeSize?, known]
    rfl
  case h_2 =>
    split at range
    · cases range
    · cases range

end Standstill

/-! ## The ways on -/

/-- A step of a kind has a native step under way on a thread. -/
def StepState.Steps (thread : ThreadId) (kind : StepKind) (st : StepState) : Prop :=
  st = .stepping thread kind ∨
    ∃ method b resumeOffset, st = .awaitingYield thread kind method b resumeOffset

namespace Step

open Stepping

variable {S : Standstill} {ctx : StepContext} {thread : ThreadId} {kind : StepKind}
  {reason : StepReason} {st : StepState}

/-- A call that the target answers as it stands. -/
theorem standing_bind {β : Type} {c : NativeCall} {f : c.Answer → Stepping β}
    {Q : List EvalOp → Except EngineError β → StepState → Prop} (answer : c.Answer)
    (stands : ∀ reply, S.Answers ⟨.native c, reply⟩ → reply = .ok answer)
    (next : (f answer).Ensures S.Answers st fun more => Q (.native c :: more)) :
    (Stepping.call c >>= f).Ensures S.Answers st Q := by
  refine call_bind (fun other answered => ?_) fun e answered => ?_
  · obtain rfl := Except.ok.inj (stands _ answered)
    exact next
  · cases stands _ answered

theorem ensures_issue_standing (mode : StepMode) :
    (issue thread kind mode).Ensures S.Answers st fun ops r st' =>
      r = .ok ⟨⟩ ∧ st' = .stepping thread kind ∧ stepsAsked ops = [(thread, mode)] :=
  standing_bind () (fun _ answered => answered.choose_spec) (ensures_set ⟨rfl, rfl, rfl⟩)

theorem ensures_again_standing (into : Bool) :
    (again ctx thread kind into).Ensures S.Answers st fun ops r st' =>
      r = .ok .resume ∧ st' = .stepping thread kind ∧
      stepsAsked ops = [(thread, S.onward ctx thread into)] := by
  refine standing_bind (S.frames thread) (fun _ answered => answered) ?_
  refine (ensures_issue_standing (S.onward ctx thread into)).bind ?_ ?_
  · intro ops _ st' holds
    obtain ⟨-, rfl, asked⟩ := holds
    refine ensures_pure ⟨rfl, rfl, ?_⟩
    rw [List.append_nil]
    exact asked
  · intro ops e st' holds
    cases holds.1

/-- What is found out about the place decides how the step goes on, or that it does not. -/
theorem ensures_continuation_standing :
    (continuation ctx (S.place? thread) (S.location? ctx thread) reason).Ensures S.Answers st
      fun ops r st' => stepsAsked ops = [] ∧ st' = st ∧
        ((S.Presentable ctx thread ∧ r = .ok none) ∨
          ∃ into, ¬ S.Presentable ctx thread ∧ r = .ok (some into) ∧
            (into = true ↔ S.Foreign ctx thread ∧ ¬ S.BeforeUserCode ctx thread reason)) := by
  unfold continuation
  -- In code of the user, or where nobody asks whose code it is, the source decides.
  have bySource (own : ¬ S.Foreign ctx thread) :
      (pure (if (S.location? ctx thread).isNone then some false else none) :
        Stepping (Option Bool)).Ensures S.Answers st fun ops r st' =>
          stepsAsked ops = [] ∧ st' = st ∧
            ((S.Presentable ctx thread ∧ r = .ok none) ∨
              ∃ into, ¬ S.Presentable ctx thread ∧ r = .ok (some into) ∧
                (into = true ↔ S.Foreign ctx thread ∧
                  ¬ S.BeforeUserCode ctx thread reason)) := by
    refine ensures_pure ⟨rfl, rfl, ?_⟩
    cases source : S.location? ctx thread with
    | none => exact .inr ⟨false, fun shown => shown.1 source, rfl, by simp [own]⟩
    | some location => exact .inl ⟨⟨by simp [source], own⟩, rfl⟩
  cases here : S.place? thread with
  | none =>
      have nowhere : S.location? ctx thread = none :=
        Option.bind_eq_none_iff.mpr fun place there => nomatch here.symm.trans there
      refine ensures_pure ⟨rfl, rfl, .inr ⟨false, fun shown => shown.1 nowhere, rfl, ?_⟩⟩
      simp [Standstill.Foreign, here]
  | some place =>
      obtain ⟨method, offset⟩ := place
      dsimp only
      split
      case isTrue early =>
        simp only [Bool.and_eq_true, decide_eq_true_eq, Option.isNone_iff_eq_none] at early
        obtain ⟨⟨called, noSource⟩, points⟩ := early
        have front : S.BeforeUserCode ctx thread reason :=
          ⟨called, noSource, method, offset, here, points⟩
        refine ensures_pure ⟨rfl, rfl, .inr ⟨false, fun shown => shown.1 noSource, rfl, ?_⟩⟩
        simp [front]
      case isFalse late =>
        have late : ¬ S.BeforeUserCode ctx thread reason := by
          rintro ⟨called, noSource, method', offset', here', points⟩
          cases here.symm.trans here'
          exact late (by simp [called, noSource, points])
        split
        case isTrue justMyCode =>
          refine standing_bind (S.methodInfo method) (fun _ answered => answered) ?_
          split
          case isTrue marked =>
            have foreign : S.Foreign ctx thread := ⟨justMyCode, method, offset, here, marked⟩
            exact ensures_pure ⟨rfl, rfl, .inr ⟨true, fun shown => shown.2 foreign, rfl, by
              simp [foreign, late]⟩⟩
          case isFalse unmarked =>
            refine (bySource ?_).mono fun _ _ _ holds => holds
            rintro ⟨-, method', offset', here', marked⟩
            cases here.symm.trans here'
            exact unmarked marked
        case isFalse anyCode => exact bySource fun foreign => anyCode foreign.1

/-- The two ways on, with the question answered that tells them apart. -/
def Moves (S : Standstill) (ctx : StepContext) (thread : ThreadId) (kind : StepKind)
    (reason : StepReason) (ops : List EvalOp) (r : Except EngineError StepOutcome)
    (st' : StepState) : Prop :=
  (S.Presentable ctx thread ∧ r = .ok (.stop thread) ∧ st' = .idle ∧ stepsAsked ops = []) ∨
    ∃ into, ¬ S.Presentable ctx thread ∧ r = .ok .resume ∧ st' = .stepping thread kind ∧
      stepsAsked ops = [(thread, S.onward ctx thread into)] ∧
      (into = true ↔ S.Foreign ctx thread ∧ ¬ S.BeforeUserCode ctx thread reason)

theorem Moves.after (ops : List EvalOp) {more : List EvalOp}
    {r : Except EngineError StepOutcome} {st' : StepState} (nothing : stepsAsked ops = [])
    (moves : Moves S ctx thread kind reason more r st') :
    Moves S ctx thread kind reason (ops ++ more) r st' := by
  unfold Moves
  rw [stepsAsked_append, nothing, List.nil_append]
  exact moves

theorem ensures_onStepComplete_standing (steps : st.Steps thread kind) :
    (onStepComplete ctx thread reason).Ensures S.Answers st fun ops r st' =>
      Moves S ctx thread kind reason ops r st' := by
  unfold onStepComplete
  extract_lets go
  -- By then the step in flight is a plain one, whatever it waited for.
  have ensures_go : (go kind).Ensures S.Answers (.stepping thread kind) fun ops r st' =>
      Moves S ctx thread kind reason ops r st' := by
    refine standing_bind (S.frames thread) (fun _ answered => answered) ?_
    refine ensures_continuation_standing.bind ?_ ?_
    · intro ops onward _ holds
      obtain ⟨nothing, rfl, ⟨shown, same⟩ | ⟨into, unshown, same, decides⟩⟩ := holds
      · cases same
        -- A plain step has nothing to take back.
        refine Program.ensures_done_iff.mpr ?_
        exact .after (.native (.frames thread) :: ops) nothing (.inl ⟨shown, rfl, rfl, rfl⟩)
      · cases same
        refine (ensures_again_standing into).mono fun more r st' goesOn => ?_
        obtain ⟨rfl, rfl, asked⟩ := goesOn
        exact .after (.native (.frames thread) :: ops) nothing
          (.inr ⟨into, unshown, rfl, rfl, asked, decides⟩)
    · intro ops e st' holds
      obtain ⟨-, -, ⟨-, same⟩ | ⟨into, -, same, -⟩⟩ := holds
      · cases same
      · cases same
  refine get_bind ?_
  obtain rfl | ⟨method, b, resumeOffset, rfl⟩ := steps
  · dsimp only
    rw [if_pos rfl]
    exact ensures_go
  · dsimp only
    rw [if_pos rfl]
    refine (ensures_deactivate b).bind ?_ ?_
    · intro ops _ _ holds
      obtain ⟨-, rfl, rfl⟩ := holds
      exact set_bind (ensures_go.mono fun more r st' moves => moves.after _ rfl)
    · intro ops e st' holds
      cases holds.1

/-- If the target answers, a step whose native step has ended at a place to stop at is over, and
from any other place exactly one native step follows: into the code of calls where the code is not
the user's, unless a call has ended in front of code of the user, and else over the calls or out of
the method. No range of code is stepped through that the place is not in. -/
theorem stops_or_stepsOn {es : List (Exchange evalEffect)} {r : Except EngineError StepOutcome}
    {st' : StepState} (steps : st.Steps thread kind)
    (played : ((onStepComplete ctx thread reason).run st).Plays es (r, st'))
    (answered : ∀ x ∈ es, S.Answers x) :
    (S.Presentable ctx thread →
      r = .ok (.stop thread) ∧ st' = .idle ∧ stepsAsked (es.map (·.op)) = []) ∧
    (¬ S.Presentable ctx thread →
      r = .ok .resume ∧ st' = .stepping thread kind ∧
      ∃ mode, stepsAsked (es.map (·.op)) = [(thread, mode)] ∧
        (S.Foreign ctx thread ∧ ¬ S.BeforeUserCode ctx thread reason → mode.isInto = true) ∧
        (¬ (S.Foreign ctx thread ∧ ¬ S.BeforeUserCode ctx thread reason) →
          mode.isOverOrOut = true) ∧
        ∀ into start stop, mode = .range into start stop →
          ∃ method offset size, S.place? thread = some (method, offset) ∧
            ctx.symbols.codeSize? method = some size ∧
            (offset < size → start ≤ offset ∧ offset < stop)) := by
  have moves := ensures_onStepComplete_standing steps es () _ played
    (Environment.allows_ofReplies_iff.mpr answered)
  obtain ⟨shown, stopped⟩ | ⟨into, unshown, resumed, same, asked, decides⟩ := moves
  · exact ⟨fun _ => stopped, fun unshown => absurd shown unshown⟩
  · refine ⟨fun shown => absurd shown unshown, fun _ => ⟨resumed, same, _, asked, ?_, ?_, ?_⟩⟩
    · intro foreign
      exact (StepMode.isInto_onward into _).trans (decides.mpr foreign)
    · intro own
      obtain rfl : into = false := Bool.eq_false_iff.mpr fun isInto => own (decides.mp isInto)
      exact StepMode.isOverOrOut_onward _
    · exact fun _ _ _ range => S.mem_onward ctx thread range

end Step

section Landings

/-- Every thread is at an offset of the method with the await. -/
def standingAt (offset : UInt32) (foreign : Bool) : Standstill where
  frames _ := [⟨.managed, some ⟨1, 34⟩, offset⟩]
  methodInfo method :=
    ⟨method, "MoveNext", ⟨1, 2, "Machine"⟩, false, [], 0, "System.Void", foreign⟩

/-- In front of the first line, in a method that is marked as not the user's. -/
def inFront : Standstill := standingAt 4 true

/-- At the start of the second line, in the user's code. -/
def atLine : Standstill := standingAt 30 false

/-- The breakpoint on the yield point goes, and the code up to the first line is stepped over. -/
def overFront : List (Exchange evalEffect) :=
  [⟨.native (.setBreakpointActive ⟨12⟩ false), .ok ()⟩,
    ⟨.native (.frames 1), .ok (inFront.frames 1)⟩, ⟨.native (.frames 1), .ok (inFront.frames 1)⟩,
    ⟨.native (.step 1 (.range false 0 10)), .ok ()⟩]

/-- The line is looked up, and whose code it is. -/
def ontoLine : List (Exchange evalEffect) :=
  [⟨.native (.frames 1), .ok (atLine.frames 1)⟩,
    ⟨.native (.methodInfo ⟨1, 34⟩), .ok (atLine.methodInfo ⟨1, 34⟩)⟩]

/-- A step into code that is in front of a line goes on, and one that is at a line is over. -/
theorem stepsOn_overFront_stops_atLine :
    (((Step.onStepComplete awaiting 1 .call).run (.awaitingYield 1 .into ⟨1, 34⟩ ⟨12⟩ 30)).Plays
        overFront (.ok .resume, .stepping 1 .into) ∧
      inFront.Foreign awaiting 1 ∧ inFront.BeforeUserCode awaiting 1 .call ∧
      ∃ mode, stepsAsked (overFront.map (·.op)) = [(1, mode)] ∧ mode.isOverOrOut = true) ∧
    (atLine.Presentable awaiting 1 ∧
      ∃ r st', ((Step.onStepComplete awaiting 1 .normal).run (.stepping 1 .over)).Plays
        ontoLine (r, st') ∧ r = .ok (.stop 1) ∧ st' = .idle) := by
  constructor
  · have played : ((Step.onStepComplete awaiting 1 .call).run
        (.awaitingYield 1 .into ⟨1, 34⟩ ⟨12⟩ 30)).Plays overFront
          (.ok .resume, .stepping 1 .into) :=
      .perform (.perform (.perform (.perform (.done _))))
    have answered : ∀ x ∈ overFront, inFront.Answers x := by
      simp [overFront, Standstill.Answers, EvalOp.Succeeds]
    have foreign : inFront.Foreign awaiting 1 := ⟨rfl, ⟨1, 34⟩, 4, rfl, rfl⟩
    have front : inFront.BeforeUserCode awaiting 1 .call := ⟨rfl, rfl, ⟨1, 34⟩, 4, rfl, rfl⟩
    have steps : StepState.Steps 1 .into (.awaitingYield 1 .into ⟨1, 34⟩ ⟨12⟩ 30) :=
      .inr ⟨_, _, _, rfl⟩
    obtain ⟨-, -, mode, asked, -, isOver, -⟩ :=
      (Step.stops_or_stepsOn steps played answered).2 fun shown => shown.1 front.2.1
    exact ⟨played, foreign, front, mode, asked, isOver fun isInto => isInto.2 front⟩
  · have played : ((Step.onStepComplete awaiting 1 .normal).run (.stepping 1 .over)).Plays
        ontoLine (.ok (.stop 1), .idle) :=
      .perform (.perform (.done _))
    have answered : ∀ x ∈ ontoLine, atLine.Answers x := by
      simp [ontoLine, Standstill.Answers]
    have shown : atLine.Presentable awaiting 1 := by
      constructor
      · decide
      · rintro ⟨-, method, offset, -, marked⟩
        cases marked
    obtain ⟨stopped, idle, -⟩ := (Step.stops_or_stepsOn (.inl rfl) played answered).1 shown
    exact ⟨shown, _, _, played, stopped, idle⟩

end Landings

end ManagedDebugger
