import ManagedDebugger.Proofs.Step.Exits

/-!
# What a step has armed

A ledger keeps account of the target's side of stepping: which temporary breakpoints are on, and on
which threads a native step is under way. As long as no call fails, the step in flight says exactly
what is in the ledger, after each operation of the step controller and in any order of operations.
Where a call fails and the operation with it, the ledger tells whether anything can still come of
the step.
-/

namespace ManagedDebugger

/-- The target's side of stepping. -/
structure Ledger where
  /-- The temporary breakpoints that are on. -/
  active : List NativeBreakpointId
  /-- The thread of each native step that has neither ended nor been called off. -/
  outstanding : List ThreadId
  deriving DecidableEq, Repr

namespace Ledger

def empty : Ledger := ⟨[], []⟩

/-- Books a call. One that fails changes nothing. -/
def note (L : Ledger) : Exchange evalEffect → Ledger
  | ⟨.native (.createBreakpoint _ _), .ok b⟩ => { L with active := b :: L.active }
  | ⟨.native (.setBreakpointActive b true), .ok _⟩ => { L with active := b :: L.active }
  | ⟨.native (.setBreakpointActive b false), .ok _⟩ =>
    { L with active := L.active.filter (· ≠ b) }
  | ⟨.native (.step thread _), .ok _⟩ => { L with outstanding := thread :: L.outstanding }
  | ⟨.native (.cancelStep thread), .ok _⟩ =>
    { L with outstanding := L.outstanding.filter (· ≠ thread) }
  | _ => L

def after (L : Ledger) (es : List (Exchange evalEffect)) : Ledger := es.foldl note L

/-- A native step that completes is no longer outstanding when the step controller hears of it. -/
def notified (L : Ledger) : StepCommand → Ledger
  | .complete thread _ => { L with outstanding := L.outstanding.erase thread }
  | _ => L

theorem note_harmless (L : Ledger) {x : Exchange evalEffect} (harmless : x.op.arms = false) :
    L.note x = L := by
  rcases x with ⟨op, reply⟩
  cases op with
  | native c =>
      cases c with
      | createBreakpoint method offset => cases harmless
      | setBreakpointActive b active => cases harmless
      | step thread mode => cases harmless
      | cancelStep thread => cases harmless
      | _ => rfl
  | _ => rfl

theorem after_marks (L : Ledger) (es : List (Exchange evalEffect)) :
    L.after (marks es) = L.after es := by
  induction es generalizing L with
  | nil => rfl
  | cons x rest inductionHypothesis =>
      cases arms : x.op.arms with
      | true =>
          rw [marks_arming arms]
          exact inductionHypothesis (L.note x)
      | false =>
          have same : L.note x = L := note_harmless L arms
          rw [marks_harmless arms, inductionHypothesis, after, after, List.foldl_cons, same]

end Ledger

/-- What a step in flight has armed, as far as it knows. -/
def StepState.armed : StepState → Ledger
  | idle => ⟨[], []⟩
  | stepping thread _ => ⟨[], [thread]⟩
  | awaitingYield thread _ _ b _ => ⟨[b], [thread]⟩
  | awaitingResume _ _ b _ => ⟨[b], []⟩

theorem EvalOp.not_succeeds_error (c : NativeCall) (e : NativeError) :
    ¬ EvalOp.Succeeds ⟨.native c, .error e⟩ := by
  intro succeeds
  rcases succeeds with ⟨answer, failed⟩
  cases failed

namespace Ledger

@[simp]
theorem after_nil (L : Ledger) : L.after [] = L := rfl

@[simp]
theorem after_cons (L : Ledger) (x : Exchange evalEffect) (rest : List (Exchange evalEffect)) :
    L.after (x :: rest) = (L.note x).after rest := rfl

theorem after_append (L : Ledger) (first second : List (Exchange evalEffect)) :
    L.after (first ++ second) = (L.after first).after second :=
  List.foldl_append

end Ledger

namespace Step

open Exchange

variable {thread : ThreadId} {st st' : StepState} {ms : List (Exchange evalEffect)} {ok : Bool}

/-- A native step that is accepted is outstanding. -/
theorem Asks.after (asks : Asks thread ms ok) (L : Ledger) :
    L.after ms = if ok then { L with outstanding := thread :: L.outstanding } else L := by
  cases asks with
  | accepted mode => rfl
  | refused mode e => rfl

theorem Asks.accepted_of_succeed (asks : Asks thread ms ok)
    (succeed : ∀ x ∈ ms, EvalOp.Succeeds x) : ok = true := by
  cases asks with
  | accepted mode => rfl
  | refused mode e =>
      exact absurd (succeed _ (List.mem_singleton.mpr rfl)) (EvalOp.not_succeeds_error _ e)

theorem Starts.armed (starts : Starts thread ms ok st')
    (succeed : ∀ x ∈ ms, EvalOp.Succeeds x) : StepState.idle.armed.after ms = st'.armed := by
  cases starts with
  | unread => rfl
  | plain kind asks =>
      have accepted := asks.accepted_of_succeed succeed
      subst accepted
      simp [asks.after, StepState.armed]
  | notCreated method offset e =>
      exact absurd (succeed _ (List.mem_singleton.mpr rfl)) (EvalOp.not_succeeds_error _ e)
  | created kind method offset resumeOffset b asks =>
      have accepted := asks.accepted_of_succeed fun x among =>
        succeed x (List.mem_cons_of_mem _ among)
      subst accepted
      simp [asks.after, StepState.armed, Ledger.note]

/-- Once a native step has ended nothing is armed. -/
theorem Lands.after {kind : StepKind} (lands : Lands thread kind st ms) (reason : StepReason)
    (succeed : ∀ x ∈ ms, EvalOp.Succeeds x) :
    (st.armed.notified (.complete thread reason)).after ms = .empty := by
  cases lands with
  | plain => simp [StepState.armed, Ledger.notified, Ledger.empty]
  | beforeYield method b resumeOffset reply =>
      rcases succeed _ (List.mem_singleton.mpr rfl) with ⟨⟨⟩, rfl⟩
      simp [StepState.armed, Ledger.notified, Ledger.empty, Ledger.note]

theorem Completes.armed (completes : Completes EvalOp.Succeeds thread st ms ok st')
    (reason : StepReason) (succeed : ∀ x ∈ ms, EvalOp.Succeeds x) :
    (st.armed.notified (.complete thread reason)).after ms = st'.armed := by
  cases completes with
  | notOwn other =>
      cases st with
      | idle => rfl
      | awaitingResume origin kind b identity => rfl
      | stepping t kind =>
          have different : t ≠ thread := fun same => other (congrArg some same)
          simp [StepState.armed, Ledger.notified, different]
      | awaitingYield t kind method b resumeOffset =>
          have different : t ≠ thread := fun same => other (congrArg some same)
          simp [StepState.armed, Ledger.notified, different]
  | unread fallible lands =>
      rcases fallible with ⟨c, e, failed⟩
      exact absurd failed (EvalOp.not_succeeds_error c e)
  | onward lands asks =>
      rcases List.forall_mem_append.mp succeed with ⟨first, second⟩
      have accepted := asks.accepted_of_succeed second
      subst accepted
      rw [Ledger.after_append, lands.after reason first, asks.after]
      rfl
  | ended lands => exact lands.after reason succeed

theorem Hits.armed (hits : Hits thread st ms ok st') (succeed : ∀ x ∈ ms, EvalOp.Succeeds x) :
    st.armed.after ms = st'.armed := by
  cases hits with
  | unchanged st known => rfl
  | notCalledOff kind method b resumeOffset e =>
      exact absurd (succeed _ (List.mem_singleton.mpr rfl)) (EvalOp.not_succeeds_error _ e)
  | notCreated kind method b resumeOffset reply e =>
      exact absurd (succeed (create method resumeOffset (.error e)) (by simp))
        (EvalOp.not_succeeds_error _ e)
  | yielded kind method b resume resumeOffset reply identity =>
      rcases succeed (switchOff b reply) (by simp) with ⟨⟨⟩, rfl⟩
      simp [StepState.armed, Ledger.note]
  | resumed origin kind b identity reply read =>
      rcases succeed (switchOff b reply) (by simp) with ⟨⟨⟩, rfl⟩
      simp [StepState.armed, Ledger.note]
  | onward origin kind b identity reply asks =>
      rcases succeed (switchOff b reply) (by simp) with ⟨⟨⟩, rfl⟩
      have accepted := asks.accepted_of_succeed fun x among =>
        succeed x (List.mem_cons_of_mem _ among)
      subst accepted
      simp [asks.after, StepState.armed, Ledger.note]

theorem Drops.after (drops : Drops st ms) (succeed : ∀ x ∈ ms, EvalOp.Succeeds x) :
    st.armed.after ms = .empty := by
  cases drops with
  | idle => rfl
  | stepping thread kind reply =>
      rcases succeed (callOff thread reply) (by simp) with ⟨⟨⟩, rfl⟩
      simp [StepState.armed, Ledger.note, Ledger.empty]
  | awaitingYield thread kind method b resumeOffset reply reply' =>
      rcases succeed (callOff thread reply) (by simp) with ⟨⟨⟩, rfl⟩
      rcases succeed (switchOff b reply') (by simp) with ⟨⟨⟩, rfl⟩
      simp [StepState.armed, Ledger.note, Ledger.empty]
  | awaitingResume origin kind b identity reply =>
      rcases succeed (switchOff b reply) (by simp) with ⟨⟨⟩, rfl⟩
      simp [StepState.armed, Ledger.note, Ledger.empty]

/-- An operation whose calls succeed leaves in the target what the step in flight knows of. -/
theorem Exits.armed {command : StepCommand} (exits : Exits EvalOp.Succeeds command st ms ok st')
    (succeed : ∀ x ∈ ms, EvalOp.Succeeds x) :
    (st.armed.notified command).after ms = st'.armed := by
  cases command with
  | start thread kind =>
      rw [Exits] at exits
      split at exits
      case isTrue idle =>
        subst idle
        exact exits.armed succeed
      case isFalse inFlight =>
        rcases exits with ⟨rfl, -, rfl⟩
        rfl
  | complete thread reason => exact Completes.armed exits reason succeed
  | hit thread b => exact Hits.armed exits succeed
  | cancel =>
      rcases exits with ⟨drops, -, rfl⟩
      exact drops.after succeed

end Step

/-- One operation of the step controller, in the surroundings of the moment. -/
structure StepCall where
  context : StepContext
  command : StepCommand
  transcript : List (Exchange evalEffect)
  result : Except EngineError Unit

/-- The operation goes like this, with the step in flight before and after it. -/
def StepCall.Happens (call : StepCall) (st st' : StepState) : Prop :=
  ((call.command.program call.context).run st).Plays call.transcript (call.result, st')

/-- Operations one after the other in which no call fails, and the ledger of all of them. -/
inductive StepRun : StepState → Ledger → List StepCall → StepState → Ledger → Prop where
  | nil (st : StepState) (L : Ledger) : StepRun st L [] st L
  | cons {st st' st'' : StepState} {L L' : Ledger} {call : StepCall} {rest : List StepCall} :
      call.Happens st st' → (∀ x ∈ call.transcript, EvalOp.Succeeds x) →
      StepRun st' ((L.notified call.command).after call.transcript) rest st'' L' →
      StepRun st L (call :: rest) st'' L'

instance : DecidablePred EvalOp.Succeeds
  | ⟨.native _, .ok answer⟩ => .isTrue ⟨answer, rfl⟩
  | ⟨.native c, .error e⟩ => .isFalse (EvalOp.not_succeeds_error c e)
  | ⟨.register .., _⟩ | ⟨.cancel _, _⟩ | ⟨.wait .., _⟩ => .isTrue trivial

/-- How an operation ends if the target counts the calls and replies to each by its number. -/
def StepCommand.outcome (reply : UInt32 → (c : NativeCall) → c.Reply) (ctx : StepContext)
    (command : StepCommand) (st : StepState) (n : UInt32) : StepCall × StepState × UInt32 :=
  let respond (n : UInt32) : (op : EvalOp) → op.Reply × UInt32
    | .native c => (reply n c, n + 1)
    | .register .. => ((0 : Nat), n)
    | .cancel _ => ((), n)
    | .wait .. => (none, n)
  let (es, n, result, st) := ((command.program ctx).run st).simulate respond n
  (⟨ctx, command, es, result⟩, st, n)

theorem StepCommand.happens_outcome (reply : UInt32 → (c : NativeCall) → c.Reply)
    (ctx : StepContext) (command : StepCommand) (st : StepState) (n : UInt32) :
    (command.outcome reply ctx st n).1.Happens st (command.outcome reply ctx st n).2.1 :=
  Program.plays_simulate _ _ n

theorem StepCall.Happens.armed {call : StepCall} {st st' : StepState}
    (happens : call.Happens st st') (succeed : ∀ x ∈ call.transcript, EvalOp.Succeeds x) :
    (st.armed.notified call.command).after call.transcript = st'.armed := by
  have exits := Step.leaves_program call.context call.command st _ _ happens succeed
  have marked : ∀ x ∈ marks call.transcript, EvalOp.Succeeds x :=
    fun x among => succeed x (List.mem_filter.mp among).1
  rw [← Ledger.after_marks]
  exact exits.armed marked

theorem StepRun.keeps {calls : List StepCall} {st st' : StepState} {L L' : Ledger}
    (run : StepRun st L calls st' L') (agrees : L = st.armed) : L' = st'.armed := by
  induction run with
  | nil st L => exact agrees
  | cons happens succeed _ inductionHypothesis =>
      subst agrees
      exact inductionHypothesis (happens.armed succeed)

/-- Whatever the step controller was asked to do from the start on, in whatever order, the step in
flight is what the target has armed: nothing when there is none, a native step on its thread while
it steps, its breakpoint and the native step while it waits for a yield point, and its breakpoint
alone while it waits for the method to resume. -/
theorem armed_of_run {calls : List StepCall} {st : StepState} {L : Ledger}
    (run : StepRun .idle .empty calls st L) :
    match st with
    | .idle => L.active = [] ∧ L.outstanding = []
    | .stepping thread _ => L.active = [] ∧ L.outstanding = [thread]
    | .awaitingYield thread _ _ b _ => L.active = [b] ∧ L.outstanding = [thread]
    | .awaitingResume _ _ b _ => L.active = [b] ∧ L.outstanding = [] := by
  have agrees : L = st.armed := run.keeps rfl
  subst agrees
  cases st with
  | idle => exact ⟨rfl, rfl⟩
  | stepping thread kind => exact ⟨rfl, rfl⟩
  | awaitingYield thread kind method b resumeOffset => exact ⟨rfl, rfl⟩
  | awaitingResume origin kind b identity => exact ⟨rfl, rfl⟩

section Await

/-- The code from 10 to 30 belongs to a line with an await; it yields at 12 and resumes at 30. -/
def awaitingMethod : MethodSymbols :=
  ⟨34, "A.cs", 50, [⟨10, 11, 11, 9, 30⟩, ⟨30, 12, 12, 9, 30⟩], some ⟨[⟨12, 30⟩], 40⟩, [], []⟩

def awaiting : StepContext := ⟨⟨[(1, ⟨[(34, awaitingMethod)], none⟩)]⟩, true, none⟩

/-- Thread 1 is at 10. Breakpoints are numbered like the calls, and steps are as asked for. -/
def atAwait (allows : Except NativeError Unit) (n : UInt32) : (c : NativeCall) → c.Reply
  | .frames _ => .ok [⟨.managed, some ⟨1, 34⟩, 10⟩]
  | .arguments .. => .ok []
  | .createBreakpoint .. => .ok ⟨n⟩
  | .step .. => allows
  | .cancelStep _ | .setBreakpointActive .. => .ok ()
  | _ => .error .connectionClosed

/-- A step over the await, up to the point where the method has yielded. -/
def overAwait : StepCall × StepState × UInt32 :=
  (StepCommand.start 1 .over).outcome (atAwait (.ok ())) awaiting .idle 0

def yielded : StepCall × StepState × UInt32 :=
  (StepCommand.hit 1 ⟨1⟩).outcome (atAwait (.ok ())) awaiting overAwait.2.1 overAwait.2.2

theorem armed_after_yield : ∃ calls L, calls.length = 2 ∧
    StepRun .idle .empty calls (.awaitingResume 1 .over ⟨6⟩ none) L ∧
    L.active = [⟨6⟩] ∧ L.outstanding = [] := by
  have started : overAwait.1.Happens .idle (.awaitingYield 1 .over ⟨1, 34⟩ ⟨1⟩ 30) :=
    StepCommand.happens_outcome (atAwait (.ok ())) awaiting (.start 1 .over) .idle 0
  have hit : yielded.1.Happens (.awaitingYield 1 .over ⟨1, 34⟩ ⟨1⟩ 30)
      (.awaitingResume 1 .over ⟨6⟩ none) :=
    StepCommand.happens_outcome (atAwait (.ok ())) awaiting (.hit 1 ⟨1⟩) overAwait.2.1 overAwait.2.2
  have run := StepRun.cons (L := .empty) started (by decide +kernel)
    (.cons hit (by decide +kernel) (.nil _ _))
  exact ⟨_, _, rfl, run, armed_of_run run⟩

end Await

/-- The step controller is at rest, or waits for something that can still happen. -/
def StepState.Usable (st : StepState) (L : Ledger) : Prop :=
  (st = .idle ∧ L.active = []) ∨
    (∃ b, st.breakpoint? = some b ∧ b ∈ L.active) ∨
    (∃ thread, st.stepper? = some thread ∧ thread ∈ L.outstanding)

theorem StepState.usable_armed (st : StepState) : st.Usable st.armed := by
  cases st with
  | idle => exact .inl ⟨rfl, rfl⟩
  | stepping thread kind => exact .inr (.inr ⟨thread, rfl, List.mem_singleton.mpr rfl⟩)
  | awaitingYield thread kind method b resumeOffset =>
      exact .inr (.inl ⟨b, rfl, List.mem_singleton.mpr rfl⟩)
  | awaitingResume origin kind b identity =>
      exact .inr (.inl ⟨b, rfl, List.mem_singleton.mpr rfl⟩)

namespace Exchange

/-- A breakpoint was set. -/
def creates : Exchange evalEffect → Bool
  | ⟨.native (.createBreakpoint _ _), .ok _⟩ => true
  | _ => false

def failsToCreate : Exchange evalEffect → Bool
  | ⟨.native (.createBreakpoint _ _), .error _⟩ => true
  | _ => false

def failsToSwitchOff : Exchange evalEffect → Bool
  | ⟨.native (.setBreakpointActive _ false), .error _⟩ => true
  | _ => false

variable {x : Exchange evalEffect}

theorem arms_of_creates (creates : x.creates = true) : x.op.arms = true := by
  unfold Exchange.creates at creates
  split at creates
  · rfl
  · cases creates

theorem arms_of_failsToCreate (fails : x.failsToCreate = true) : x.op.arms = true := by
  unfold failsToCreate at fails
  split at fails
  · rfl
  · cases fails

theorem arms_of_failsToSwitchOff (fails : x.failsToSwitchOff = true) : x.op.arms = true := by
  unfold failsToSwitchOff at fails
  split at fails
  · rfl
  · cases fails

end Exchange

/-- The failures that leave nothing to wait for. A start has set a breakpoint already; the native
step of the step in flight has ended; a step that has given up its yield point gets no other
breakpoint, or one that should be gone stays on. -/
def StepCommand.strands (command : StepCommand) (es : List (Exchange evalEffect)) : Bool :=
  match command with
  | start .. => es.any Exchange.creates
  | complete .. => true
  | hit .. => es.any Exchange.failsToCreate != es.any Exchange.failsToSwitchOff
  | cancel => false

theorem any_marks {p : Exchange evalEffect → Bool} (only : ∀ x, p x = true → x.op.arms = true)
    (es : List (Exchange evalEffect)) : (marks es).any p = es.any p := by
  induction es with
  | nil => rfl
  | cons x rest inductionHypothesis =>
      cases arms : x.op.arms with
      | true => rw [marks_arming arms, List.any_cons, List.any_cons, inductionHypothesis]
      | false =>
          have not : p x = false := by
            cases holds : p x with
            | true => rw [only x holds] at arms; cases arms
            | false => rfl
          rw [marks_harmless arms, List.any_cons, not, Bool.false_or, inductionHypothesis]

theorem StepCommand.strands_marks (command : StepCommand) (es : List (Exchange evalEffect)) :
    command.strands (marks es) = command.strands es := by
  cases command with
  | start thread kind => exact any_marks (fun _ => Exchange.arms_of_creates) es
  | complete thread reason => rfl
  | hit thread b =>
      have created := any_marks (fun _ => Exchange.arms_of_failsToCreate) es
      have switchedOff := any_marks (fun _ => Exchange.arms_of_failsToSwitchOff) es
      rw [strands, strands, created, switchedOff]
  | cancel => rfl

namespace Step

open Exchange

variable {possible : Exchange evalEffect → Prop} {thread : ThreadId} {st st' : StepState}
  {ms : List (Exchange evalEffect)}

theorem usable_idle_iff {L : Ledger} : StepState.idle.Usable L ↔ L.active = [] := by
  simp [StepState.Usable, StepState.breakpoint?, StepState.stepper?]

theorem usable_stepping_iff {kind : StepKind} {L : Ledger} :
    (StepState.stepping thread kind).Usable L ↔ thread ∈ L.outstanding := by
  simp [StepState.Usable, StepState.breakpoint?, StepState.stepper?]

/-- Whether the breakpoint of a step that is over is off. -/
theorem usable_switchedOff_iff (b : NativeBreakpointId) (reply : Except NativeError Unit) :
    StepState.idle.Usable (Ledger.note ⟨[b], []⟩ (switchOff b reply)) ↔
      (switchOff b reply).failsToSwitchOff = false := by
  cases reply with
  | ok off => simp [usable_idle_iff, Ledger.note, failsToSwitchOff]
  | error e => simp [usable_idle_iff, Ledger.note, failsToSwitchOff]

theorem Starts.failed (starts : Starts thread ms false st') (kind : StepKind) :
    st' = .idle ∧ (st'.Usable (StepState.idle.armed.after ms) ↔
      (StepCommand.start thread kind).strands ms = false) := by
  cases starts with
  | unread => exact ⟨rfl, by simp [usable_idle_iff, StepState.armed, StepCommand.strands]⟩
  | plain kind' asks =>
      cases asks with
      | refused mode e =>
          refine ⟨rfl, ?_⟩
          simp [usable_idle_iff, StepState.armed, StepCommand.strands, Ledger.note, creates]
  | notCreated method offset e =>
      refine ⟨rfl, ?_⟩
      simp [usable_idle_iff, StepState.armed, StepCommand.strands, Ledger.note, creates]
  | created kind' method offset resumeOffset b asks =>
      cases asks with
      | refused mode e =>
          refine ⟨rfl, ?_⟩
          simp [usable_idle_iff, StepState.armed, StepCommand.strands, Ledger.note, creates]

/-- The native step has ended, whether or not the breakpoint on the yield point could be switched
off. -/
theorem Lands.outstanding {kind : StepKind} (lands : Lands thread kind st ms)
    (reason : StepReason) :
    ((st.armed.notified (.complete thread reason)).after ms).outstanding = [] := by
  cases lands with
  | plain => simp [StepState.armed, Ledger.notified]
  | beforeYield method b resumeOffset reply =>
      cases reply with
      | ok off => simp [StepState.armed, Ledger.notified, Ledger.note]
      | error e => simp [StepState.armed, Ledger.notified, Ledger.note]

theorem Completes.failed (completes : Completes possible thread st ms false st')
    (reason : StepReason) :
    ¬ st'.Usable ((st.armed.notified (.complete thread reason)).after ms) := by
  cases completes with
  | unread fallible lands => simp [usable_stepping_iff, lands.outstanding reason]
  | onward lands asks =>
      rw [Ledger.after_append, asks.after]
      simp [usable_stepping_iff, lands.outstanding reason]

theorem Hits.failed (hits : Hits thread st ms false st') (b : NativeBreakpointId) :
    st'.Usable (st.armed.after ms) ↔ (StepCommand.hit thread b).strands ms = false := by
  cases hits with
  | unchanged st known => exact iff_of_true st.usable_armed rfl
  | notCalledOff kind method b resumeOffset e =>
      exact iff_of_true (StepState.usable_armed _) rfl
  | notCreated kind method b resumeOffset reply e =>
      cases reply with
      | ok off =>
          refine iff_of_false ?_ nofun
          simp [StepState.Usable, StepState.armed, StepState.breakpoint?, StepState.stepper?,
            Ledger.note]
      | error e' =>
          refine iff_of_true ?_ rfl
          simp [StepState.Usable, StepState.armed, StepState.breakpoint?, StepState.stepper?,
            Ledger.note]
  | resumed origin kind b identity reply =>
      exact (usable_switchedOff_iff b reply).trans (by simp [StepCommand.strands, failsToCreate])
  | onward origin kind b identity reply asks =>
      cases asks with
      | refused mode e =>
          have refused : (step thread mode (.error e)).failsToSwitchOff = false := rfl
          refine (usable_switchedOff_iff b reply).trans ?_
          simp [StepCommand.strands, failsToCreate, refused]

end Step

/-- What a failed operation leaves behind, from a step in flight that agrees with the target and
whatever calls fail. A start never leaves a step in flight that was not there before. -/
theorem usable_after_failure_iff {call : StepCall} {st st' : StepState} {e : EngineError}
    (happens : call.Happens st st') (failed : call.result = .error e) :
    (st'.Usable ((st.armed.notified call.command).after call.transcript) ↔
      call.command.strands call.transcript = false) ∧
    (∀ thread kind, call.command = .start thread kind → st' = st) := by
  have exits := Step.leaves_program call.context call.command st _ _ happens
    fun x _ => (trivial : True)
  rw [← Ledger.after_marks, ← StepCommand.strands_marks]
  rw [failed] at exits
  cases command : call.command with
  | start thread kind =>
      rw [command, Step.Exits] at exits
      split at exits
      case isTrue idle =>
        subst idle
        rcases Step.Starts.failed exits kind with ⟨rfl, usable⟩
        exact ⟨usable, fun _ _ _ => rfl⟩
      case isFalse inFlight =>
        rcases exits with ⟨nothing, -, rfl⟩
        rw [nothing]
        exact ⟨iff_of_true st'.usable_armed rfl, fun _ _ _ => rfl⟩
  | complete thread reason =>
      rw [command] at exits
      refine ⟨iff_of_false (Step.Completes.failed exits reason) ?_, ?_⟩
      · simp [StepCommand.strands]
      · intro _ _ same
        cases same
  | hit thread b =>
      rw [command] at exits
      refine ⟨Step.Hits.failed exits b, ?_⟩
      intro _ _ same
      cases same
  | cancel =>
      rw [command] at exits
      cases exits.2.1

section Refused

/-- The breakpoint on the yield point is set, but the native step is refused. -/
def refusedStep : StepCall × StepState × UInt32 :=
  (StepCommand.start 1 .over).outcome (atAwait (.error .connectionClosed)) awaiting .idle 0

theorem refusedStep_happens : refusedStep.1.Happens .idle .idle :=
  StepCommand.happens_outcome (atAwait (.error .connectionClosed)) awaiting (.start 1 .over) .idle 0

theorem unusable_after_refusedStep :
    refusedStep.1.result = .error (.native .connectionClosed) ∧
      ¬ StepState.idle.Usable (Ledger.empty.after refusedStep.1.transcript) := by
  have failed : refusedStep.1.result = .error (.native .connectionClosed) := rfl
  have strands : refusedStep.1.command.strands refusedStep.1.transcript = true := by decide +kernel
  have usable := (usable_after_failure_iff refusedStep_happens failed).1
  refine ⟨failed, fun holds => ?_⟩
  rw [usable.mp holds] at strands
  cases strands

/-- One call fails, the start with it, and the breakpoint stays on with no step in flight. -/
theorem leak_of_refusedStep :
    (refusedStep.1.command = .start 1 .over ∧ refusedStep.1.Happens .idle .idle ∧
      refusedStep.1.result = .error (.native .connectionClosed)) ∧
    (refusedStep.1.transcript.countP fun x => ¬ EvalOp.Succeeds x) = 1 ∧
    Ledger.empty.after refusedStep.1.transcript = ⟨[⟨1⟩], []⟩ :=
  ⟨⟨rfl, refusedStep_happens, rfl⟩, by decide +kernel, by decide +kernel⟩

end Refused

end ManagedDebugger
