import ManagedDebugger.Proofs.Step.Outcome

/-!
# Every way out of the step controller

Four kinds of calls arm something in the target or take it back: those that set a breakpoint, that
switch one on or off, that ask for a native step, and that call one off. All others, evaluations
with them, may be left out of a transcript of the step controller. What remains is short, and the
relation `Exits` lists all of it: for each operation and each step in flight the calls that are made
with their replies, whether the operation succeeds, and the step in flight afterwards.
-/

namespace ManagedDebugger

/-- Calls that arm something in the target, or take it back. -/
def NativeCall.arms : NativeCall → Bool
  | createBreakpoint .. | setBreakpointActive .. | step .. | cancelStep _ => true
  | _ => false

def EvalOp.arms : EvalOp → Bool
  | native c => c.arms
  | _ => false

theorem EvalOp.arms_of_evaluates {op : EvalOp} (evaluates : op.evaluates = true) :
    op.arms = false := by
  cases op with
  | native c => cases c <;> first | rfl | cases evaluates
  | _ => rfl

/-- What is left of a transcript. -/
def marks (es : List (Exchange evalEffect)) : List (Exchange evalEffect) :=
  es.filter fun x => x.op.arms

@[simp]
theorem marks_nil : marks [] = [] := rfl

@[simp]
theorem marks_append (first second : List (Exchange evalEffect)) :
    marks (first ++ second) = marks first ++ marks second :=
  List.filter_append first second

theorem marks_harmless {x : Exchange evalEffect} (harmless : x.op.arms = false)
    (rest : List (Exchange evalEffect)) : marks (x :: rest) = marks rest := by
  simp [marks, harmless]

theorem marks_arming {x : Exchange evalEffect} (arms : x.op.arms = true)
    (rest : List (Exchange evalEffect)) : marks (x :: rest) = x :: marks rest := by
  simp [marks, arms]

namespace Eval

variable {α β : Type}

/-- Whatever is replied, nothing is armed or taken back. -/
def Unarmed (p : Program evalEffect α) : Prop := ∀ es a, p.Plays es a → marks es = []

namespace Unarmed

theorem done (a : α) : Unarmed (Program.done a : Program evalEffect α) := by
  intro es b played
  rcases Program.plays_done_iff.mp played with ⟨rfl, -⟩
  rfl

theorem perform {op : EvalOp} {next : op.Reply → Program evalEffect α} (harmless : op.arms = false)
    (continued : ∀ reply, Unarmed (next reply)) :
    Unarmed (Program.perform (E := evalEffect) op next) := by
  intro es a played
  rcases Program.plays_perform_iff.mp played with ⟨reply, rest, rfl, following⟩
  have nothing := continued reply rest a following
  simpa [marks, harmless] using nothing

end Unarmed

theorem Orderly.unarmed {faulty : Bool} {limit : Option Nat} {thread : ThreadId} {p : Eval α}
    (orderly : Orderly faulty limit thread p) : Unarmed p.run := by
  intro es a played
  refine List.filter_eq_nil_iff.mpr fun x among => ?_
  rw [EvalOp.arms_of_evaluates (orderly.evaluates es a played x among)]
  exact Bool.false_ne_true

end Eval

/-- Some call may fail. -/
def Fallible (possible : Exchange evalEffect → Prop) : Prop :=
  ∃ c e, possible ⟨.native c, .error e⟩

namespace Stepping

variable {possible : Exchange evalEffect → Prop} {α β : Type} {st : StepState}

/-- However a program ends that starts with a step in flight, what is left of its transcript, its
result and the step in flight are as wanted, if the replies are possible. -/
def Leaves (possible : Exchange evalEffect → Prop) (p : Stepping α) (st : StepState)
    (Q : List (Exchange evalEffect) → Except EngineError α → StepState → Prop) : Prop :=
  ∀ es out, (p.run st).Plays es out → (∀ x ∈ es, possible x) → Q (marks es) out.1 out.2

namespace Leaves

variable {P : List (Exchange evalEffect) → Except EngineError α → StepState → Prop}
  {Q : List (Exchange evalEffect) → Except EngineError β → StepState → Prop}

theorem pure {b : β} (holds : Q [] (.ok b) st) : Leaves possible (Pure.pure b) st Q := by
  intro es out played _
  rcases Program.plays_done_iff.mp played with ⟨rfl, rfl⟩
  exact holds

theorem throw {e : EngineError} (holds : Q [] (.error e) st) :
    Leaves possible (MonadExcept.throw e : Stepping β) st Q := by
  intro es out played _
  rcases Program.plays_done_iff.mp played with ⟨rfl, rfl⟩
  exact holds

theorem set {st' : StepState}
    {Q : List (Exchange evalEffect) → Except EngineError PUnit → StepState → Prop}
    (holds : Q [] (.ok ⟨⟩) st') :
    Leaves possible (MonadStateOf.set st' : Stepping PUnit) st Q := by
  intro es out played _
  rcases Program.plays_done_iff.mp played with ⟨rfl, rfl⟩
  exact holds

theorem mono {P' : List (Exchange evalEffect) → Except EngineError α → StepState → Prop}
    {p : Stepping α} (leaves : p.Leaves possible st P)
    (implied : ∀ ms r st', P ms r st' → P' ms r st') : p.Leaves possible st P' :=
  fun es out played replied => implied _ _ _ (leaves es out played replied)

theorem bind {p : Stepping α} {f : α → Stepping β} (first : p.Leaves possible st P)
    (ok : ∀ ms a st', P ms (.ok a) st' →
      (f a).Leaves possible st' fun more => Q (ms ++ more))
    (error : ∀ ms e st', P ms (.error e) st' → Q ms (.error e) st') :
    (p >>= f).Leaves possible st Q := by
  intro es out played replied
  rcases Program.plays_bind_iff.mp played with ⟨es₁, ⟨result, st'⟩, es₂, left, right, rfl⟩
  rcases List.forall_mem_append.mp replied with ⟨replied₁, replied₂⟩
  have before := first es₁ _ left replied₁
  rw [marks_append]
  cases result with
  | ok a => exact ok _ a st' before es₂ out right replied₂
  | error e =>
      rcases Program.plays_done_iff.mp right with ⟨rfl, rfl⟩
      rw [marks_nil, List.append_nil]
      exact error _ e st' before

theorem afterGet {f : StepState → Stepping β} (next : (f st).Leaves possible st Q) :
    (get >>= f).Leaves possible st Q := next

theorem afterSet {st' : StepState} {f : PUnit → Stepping β}
    (next : (f ⟨⟩).Leaves possible st' Q) :
    (MonadStateOf.set st' >>= f : Stepping β).Leaves possible st Q := next

theorem afterModify {g : StepState → StepState} {f : StepState → Stepping β}
    (next : (f st).Leaves possible (g st) Q) : (getModify g >>= f).Leaves possible st Q := next

section Call

variable {c : NativeCall}

/-- A call that arms nothing is not seen. -/
theorem afterTry {f : c.Reply → Stepping β} (harmless : c.arms = false)
    (next : ∀ reply, (f reply).Leaves possible st Q) :
    (tryCall c >>= f).Leaves possible st Q := by
  intro es out played replied
  rcases Program.plays_perform_iff.mp played with ⟨reply, rest, rfl, following⟩
  rcases List.forall_mem_cons.mp replied with ⟨-, others⟩
  rw [marks_harmless (x := ⟨.native c, reply⟩) harmless rest]
  exact next reply rest out following others

theorem afterTryArming {f : c.Reply → Stepping β} (arms : c.arms = true)
    (next : ∀ reply, (f reply).Leaves possible st fun more => Q (⟨.native c, reply⟩ :: more)) :
    (tryCall c >>= f).Leaves possible st Q := by
  intro es out played replied
  rcases Program.plays_perform_iff.mp played with ⟨reply, rest, rfl, following⟩
  rcases List.forall_mem_cons.mp replied with ⟨-, others⟩
  rw [marks_arming (x := ⟨.native c, reply⟩) arms rest]
  exact next reply rest out following others

theorem afterCall {f : c.Answer → Stepping β} (harmless : c.arms = false)
    (ok : ∀ answer, (f answer).Leaves possible st Q)
    (error : Fallible possible → ∀ e, Q [] (.error (.native e)) st) :
    (call c >>= f).Leaves possible st Q := by
  intro es out played replied
  rcases Program.plays_perform_iff.mp played with ⟨reply, rest, rfl, following⟩
  rcases List.forall_mem_cons.mp replied with ⟨here, others⟩
  rw [marks_harmless (x := ⟨.native c, reply⟩) harmless rest]
  cases reply with
  | ok answer => exact ok answer rest out following others
  | error e =>
      rcases Program.plays_done_iff.mp following with ⟨rfl, rfl⟩
      exact error ⟨c, e, here⟩ e

theorem afterArming {f : c.Answer → Stepping β} (arms : c.arms = true)
    (ok : ∀ answer, (f answer).Leaves possible st fun more =>
      Q (⟨.native c, .ok answer⟩ :: more))
    (error : ∀ e, Q [⟨.native c, .error e⟩] (.error (.native e)) st) :
    (call c >>= f).Leaves possible st Q := by
  intro es out played replied
  rcases Program.plays_perform_iff.mp played with ⟨reply, rest, rfl, following⟩
  rcases List.forall_mem_cons.mp replied with ⟨-, others⟩
  rw [marks_arming (x := ⟨.native c, reply⟩) arms rest]
  cases reply with
  | ok answer => exact ok answer rest out following others
  | error e =>
      rcases Program.plays_done_iff.mp following with ⟨rfl, rfl⟩
      exact error e

theorem afterEval {p : Eval α} {f : Except EvalError α → Stepping β}
    (unarmed : Eval.Unarmed p.run) (next : ∀ r, (f r).Leaves possible st Q) :
    (tryEval p >>= f).Leaves possible st Q := by
  refine bind (P := fun ms r st' => ms = [] ∧ st' = st ∧ ∃ a, r = .ok a) ?_ ?_ ?_
  · intro es out played _
    rcases Program.plays_bind_iff.mp played with ⟨es₁, ⟨result, st'⟩, es₂, left, right, rfl⟩
    rcases Program.plays_bind_iff.mp left with ⟨es₃, a, es₄, evaluated, kept, rfl⟩
    rcases Program.plays_done_iff.mp kept with ⟨rfl, same⟩
    rcases Program.plays_done_iff.mp right with ⟨rfl, rfl⟩
    cases same
    refine ⟨?_, rfl, _, rfl⟩
    simpa using unarmed es₃ _ evaluated
  · intro ms r st' holds
    rcases holds with ⟨rfl, rfl, a, same⟩
    exact next r
  · intro ms e st' holds
    rcases holds with ⟨-, -, a, failed⟩
    cases failed

end Call

end Leaves

end Stepping

/-- What the step controller is asked to do. -/
inductive StepCommand where
  | start (thread : ThreadId) (kind : StepKind)
  /-- A native step ended. -/
  | complete (thread : ThreadId) (reason : StepReason)
  | hit (thread : ThreadId) (breakpoint : NativeBreakpointId)
  | cancel
  deriving DecidableEq, Repr

def StepCommand.program (ctx : StepContext) : StepCommand → Stepping Unit
  | start thread kind => Step.start ctx thread kind
  | complete thread reason => do
    let _ ← Step.onStepComplete ctx thread reason
    return ()
  | hit thread breakpoint => do
    let _ ← Step.onBreakpoint ctx thread breakpoint
    return ()
  | cancel => Step.cancel

namespace Exchange

abbrev switchOff (b : NativeBreakpointId) (reply : Except NativeError Unit) :
    Exchange evalEffect := ⟨.native (.setBreakpointActive b false), reply⟩

abbrev callOff (thread : ThreadId) (reply : Except NativeError Unit) : Exchange evalEffect :=
  ⟨.native (.cancelStep thread), reply⟩

abbrev create (method : MethodRef) (offset : UInt32)
    (reply : Except NativeError NativeBreakpointId) : Exchange evalEffect :=
  ⟨.native (.createBreakpoint method offset), reply⟩

abbrev step (thread : ThreadId) (mode : StepMode) (reply : Except NativeError Unit) :
    Exchange evalEffect := ⟨.native (.step thread mode), reply⟩

end Exchange

namespace Step

open Stepping Exchange

/-- A native step is asked for on a thread. -/
inductive Asks (thread : ThreadId) : List (Exchange evalEffect) → Bool → Prop where
  | accepted (mode : StepMode) : Asks thread [step thread mode (.ok ())] true
  | refused (mode : StepMode) (e : NativeError) : Asks thread [step thread mode (.error e)] false

/-- The ways out of a start with no step in flight. -/
inductive Starts (thread : ThreadId) : List (Exchange evalEffect) → Bool → StepState → Prop where
  | unread : Starts thread [] false .idle
  | plain {ms : List (Exchange evalEffect)} {accepted : Bool} (kind : StepKind) :
      Asks thread ms accepted →
      Starts thread ms accepted (if accepted then .stepping thread kind else .idle)
  | notCreated (method : MethodRef) (offset : UInt32) (e : NativeError) :
      Starts thread [create method offset (.error e)] false .idle
  | created {ms : List (Exchange evalEffect)} {accepted : Bool} (kind : StepKind)
      (method : MethodRef) (offset resumeOffset : UInt32) (b : NativeBreakpointId) :
      Asks thread ms accepted →
      Starts thread (create method offset (.ok b) :: ms) accepted
        (if accepted then .awaitingYield thread kind method b resumeOffset else .idle)

/-- The native step of the step in flight has ended, and a breakpoint on a yield point goes. -/
inductive Lands (thread : ThreadId) (kind : StepKind) :
    StepState → List (Exchange evalEffect) → Prop where
  | plain : Lands thread kind (.stepping thread kind) []
  | beforeYield (method : MethodRef) (b : NativeBreakpointId) (resumeOffset : UInt32)
      (reply : Except NativeError Unit) :
      Lands thread kind (.awaitingYield thread kind method b resumeOffset) [switchOff b reply]

/-- The ways out once a native step has ended. -/
inductive Completes (possible : Exchange evalEffect → Prop) (thread : ThreadId) :
    StepState → List (Exchange evalEffect) → Bool → StepState → Prop where
  | notOwn {st : StepState} : st.stepper? ≠ some thread → Completes possible thread st [] true st
  /-- A call that would have told where the thread is has failed. -/
  | unread {st : StepState} {ms : List (Exchange evalEffect)} {kind : StepKind} :
      Fallible possible → Lands thread kind st ms →
      Completes possible thread st ms false (.stepping thread kind)
  | onward {st : StepState} {ms more : List (Exchange evalEffect)} {kind : StepKind}
      {accepted : Bool} : Lands thread kind st ms → Asks thread more accepted →
      Completes possible thread st (ms ++ more) accepted (.stepping thread kind)
  | ended {st : StepState} {ms : List (Exchange evalEffect)} {kind : StepKind} :
      Lands thread kind st ms → Completes possible thread st ms true .idle

/-- The ways out once a breakpoint was hit. -/
inductive Hits (thread : ThreadId) :
    StepState → List (Exchange evalEffect) → Bool → StepState → Prop where
  | unchanged (st : StepState) (known : Bool) : Hits thread st [] known st
  | notCalledOff (kind : StepKind) (method : MethodRef) (b : NativeBreakpointId)
      (resumeOffset : UInt32) (e : NativeError) :
      Hits thread (.awaitingYield thread kind method b resumeOffset)
        [callOff thread (.error e)] false (.awaitingYield thread kind method b resumeOffset)
  | notCreated (kind : StepKind) (method : MethodRef) (b : NativeBreakpointId)
      (resumeOffset : UInt32) (reply : Except NativeError Unit) (e : NativeError) :
      Hits thread (.awaitingYield thread kind method b resumeOffset)
        [callOff thread (.ok ()), switchOff b reply, create method resumeOffset (.error e)] false
        (.awaitingYield thread kind method b resumeOffset)
  | yielded (kind : StepKind) (method : MethodRef) (b resume : NativeBreakpointId)
      (resumeOffset : UInt32) (reply : Except NativeError Unit) (identity : Option RemoteValue) :
      Hits thread (.awaitingYield thread kind method b resumeOffset)
        [callOff thread (.ok ()), switchOff b reply, create method resumeOffset (.ok resume)] true
        (.awaitingResume thread kind resume identity)
  | resumed (origin : ThreadId) (kind : StepKind) (b : NativeBreakpointId)
      (identity : Option RemoteValue) (reply : Except NativeError Unit) (read : Bool) :
      Hits thread (.awaitingResume origin kind b identity) [switchOff b reply] read .idle
  | onward {ms : List (Exchange evalEffect)} {accepted : Bool} (origin : ThreadId)
      (kind : StepKind) (b : NativeBreakpointId) (identity : Option RemoteValue)
      (reply : Except NativeError Unit) :
      Asks thread ms accepted →
      Hits thread (.awaitingResume origin kind b identity) (switchOff b reply :: ms) accepted
        (if accepted then .stepping thread kind else .idle)

/-- What is called to drop a step. -/
inductive Drops : StepState → List (Exchange evalEffect) → Prop where
  | idle : Drops .idle []
  | stepping (thread : ThreadId) (kind : StepKind) (reply : Except NativeError Unit) :
      Drops (.stepping thread kind) [callOff thread reply]
  | awaitingYield (thread : ThreadId) (kind : StepKind) (method : MethodRef)
      (b : NativeBreakpointId) (resumeOffset : UInt32) (reply reply' : Except NativeError Unit) :
      Drops (.awaitingYield thread kind method b resumeOffset)
        [callOff thread reply, switchOff b reply']
  | awaitingResume (origin : ThreadId) (kind : StepKind) (b : NativeBreakpointId)
      (identity : Option RemoteValue) (reply : Except NativeError Unit) :
      Drops (.awaitingResume origin kind b identity) [switchOff b reply]

/-- All ways out of an operation: what is called, whether the operation succeeds, and the step in
flight afterwards. -/
def Exits (possible : Exchange evalEffect → Prop) (command : StepCommand) (st : StepState)
    (ms : List (Exchange evalEffect)) (succeeded : Bool) (st' : StepState) : Prop :=
  match command with
  | .start thread _ =>
    if st = .idle then Starts thread ms succeeded st' else ms = [] ∧ succeeded = false ∧ st' = st
  | .complete thread _ => Completes possible thread st ms succeeded st'
  | .hit thread _ => Hits thread st ms succeeded st'
  | .cancel => Drops st ms ∧ succeeded = true ∧ st' = .idle

section Functions

variable {possible : Exchange evalEffect → Prop} {st : StepState}

theorem leaves_deactivate (b : NativeBreakpointId) :
    (deactivate b).Leaves possible st fun ms r st' =>
      (∃ reply, ms = [switchOff b reply]) ∧ r = .ok () ∧ st' = st :=
  .afterTryArming rfl fun reply => .pure ⟨⟨reply, rfl⟩, rfl, rfl⟩

theorem leaves_release (v : RemoteValue) :
    (release v).Leaves possible st fun ms r st' => ms = [] ∧ r = .ok () ∧ st' = st :=
  .afterTry rfl fun _ => .pure ⟨rfl, rfl, rfl⟩

theorem leaves_releaseAll (identity : Option RemoteValue) :
    (identity.forM release).Leaves possible st fun ms r st' => ms = [] ∧ r = .ok () ∧ st' = st := by
  cases identity with
  | none => exact .pure ⟨rfl, rfl, rfl⟩
  | some v => exact leaves_release v

theorem leaves_finish :
    finish.Leaves possible st fun ms r st' =>
      (match st.breakpoint? with
        | some b => ∃ reply, ms = [switchOff b reply]
        | none => ms = []) ∧ r = .ok () ∧ st' = .idle := by
  refine .afterModify ?_
  cases st with
  | idle => exact .pure ⟨rfl, rfl, rfl⟩
  | stepping thread kind => exact .pure ⟨rfl, rfl, rfl⟩
  | awaitingYield thread kind method b resumeOffset => exact leaves_deactivate b
  | awaitingResume origin kind b identity =>
      refine (leaves_deactivate b).bind ?_ ?_
      · intro ms _ st' holds
        rcases holds with ⟨⟨reply, rfl⟩, -, rfl⟩
        refine (leaves_releaseAll identity).mono ?_
        intro more r st' rest
        rcases rest with ⟨rfl, rfl, rfl⟩
        exact ⟨⟨reply, rfl⟩, rfl, rfl⟩
      · intro ms e st' holds
        cases holds.2.1

theorem leaves_issue (thread : ThreadId) (kind : StepKind) (mode : StepMode) :
    (issue thread kind mode).Leaves possible st fun ms r st' =>
      Asks thread ms r.isOk ∧ st' = if r.isOk then .stepping thread kind else st :=
  .afterArming rfl (fun _ => .set ⟨.accepted mode, rfl⟩) fun e => ⟨.refused mode e, rfl⟩

theorem leaves_startAt (ctx : StepContext) (thread : ThreadId) (kind : StepKind)
    (method : MethodRef) (offset : UInt32) :
    (startAt ctx thread kind method offset).Leaves possible .idle fun ms r st' =>
      Starts thread ms r.isOk st' := by
  have plain (kind : StepKind) (mode : StepMode) :
      (issue thread kind mode).Leaves possible .idle fun ms r st' =>
        Starts thread ms r.isOk st' := by
    refine (leaves_issue thread kind mode).mono ?_
    intro ms r st' holds
    rcases holds with ⟨asked, rfl⟩
    exact .plain kind asked
  unfold startAt
  dsimp only
  split
  · split
    · exact plain .out .out
    · split
      · refine .afterArming rfl (fun b => ?_) fun e => .notCreated _ _ e
        refine .afterArming rfl (fun _ => .set ?_) fun e => ?_
        · exact .created kind _ _ _ b (.accepted _)
        · exact .created kind _ _ 0 b (.refused _ e)
      · exact plain kind _
  · exact plain kind _

theorem leaves_start (ctx : StepContext) (thread : ThreadId) (kind : StepKind) :
    (start ctx thread kind).Leaves possible st fun ms r st' =>
      Exits possible (.start thread kind) st ms r.isOk st' := by
  refine .afterGet ?_
  cases flight : st.thread? with
  | some active =>
      have inFlight : st ≠ .idle := by
        rintro rfl
        cases flight
      refine .throw ?_
      rw [Exits, if_neg inFlight]
      exact ⟨rfl, rfl, rfl⟩
  | none =>
      obtain rfl := StepState.eq_idle flight
      have leaves {p : Stepping Unit}
          (starts : p.Leaves possible .idle fun ms r st' => Starts thread ms r.isOk st') :
          p.Leaves possible .idle fun ms r st' =>
            Exits possible (.start thread kind) .idle ms r.isOk st' :=
        starts.mono fun ms r st' holds => by simpa only [Exits, if_true] using holds
      refine leaves (.afterCall rfl (fun frames => ?_) fun _ _ => .unread)
      have leavingOut : (issue thread .out .out).Leaves possible .idle fun ms r st' =>
          Starts thread ms r.isOk st' := by
        refine (leaves_issue thread .out .out).mono ?_
        intro ms r st' holds
        rcases holds with ⟨asked, rfl⟩
        exact .plain .out asked
      split
      · exact leavingOut
      · split
        · exact leavingOut
        · exact leaves_startAt ctx thread kind _ _

theorem leaves_again (ctx : StepContext) (thread : ThreadId) (kind : StepKind) (into : Bool) :
    (again ctx thread kind into).Leaves possible st fun ms r st' =>
      Fallible possible ∧ ms = [] ∧ r.isOk = false ∧ st' = st ∨
        Asks thread ms r.isOk ∧ st' = if r.isOk then .stepping thread kind else st := by
  refine .afterCall rfl (fun frames => ?_) fun fallible _ => .inl ⟨fallible, rfl, rfl, rfl⟩
  refine (leaves_issue thread kind _).bind ?_ ?_
  · intro ms _ st' holds
    refine .pure (.inr ?_)
    rw [List.append_nil]
    exact holds
  · intro ms e st' holds
    exact .inr holds

theorem leaves_continuation (ctx : StepContext) (landing : Option (MethodRef × UInt32))
    (location : Option SourceLocation) (reason : StepReason) :
    (continuation ctx landing location reason).Leaves possible st fun ms r st' =>
      ms = [] ∧ st' = st ∧ (r.isOk = false → Fallible possible) := by
  unfold continuation
  split
  · split
    · exact .pure ⟨rfl, rfl, nofun⟩
    · split
      · refine .afterCall rfl (fun info => ?_) fun fallible _ => ⟨rfl, rfl, fun _ => fallible⟩
        split
        · exact .pure ⟨rfl, rfl, nofun⟩
        · exact .pure ⟨rfl, rfl, nofun⟩
      · exact .pure ⟨rfl, rfl, nofun⟩
  · exact .pure ⟨rfl, rfl, nofun⟩

theorem leaves_onStepComplete (ctx : StepContext) (thread : ThreadId) (reason : StepReason) :
    (onStepComplete ctx thread reason).Leaves possible st fun ms r st' =>
      Completes possible thread st ms r.isOk st' := by
  unfold onStepComplete
  extract_lets go
  -- The step in flight has landed, and it is a plain one by now.
  have leaves_go {before : StepState} {kind : StepKind} {ms : List (Exchange evalEffect)}
      (landed : Lands thread kind before ms) :
      (go kind).Leaves possible (.stepping thread kind) fun more r st' =>
        Completes possible thread before (ms ++ more) r.isOk st' := by
    have unread (fallible : Fallible possible) :
        Completes possible thread before (ms ++ []) false (.stepping thread kind) := by
      rw [List.append_nil]
      exact .unread fallible landed
    refine .afterCall rfl (fun frames => ?_) fun fallible _ => unread fallible
    refine (leaves_continuation ctx _ _ reason).bind ?_ ?_
    · intro nothing onward _ same
      rcases same with ⟨rfl, rfl, -⟩
      cases onward with
      | some into =>
          refine (leaves_again ctx thread kind into).mono ?_
          intro more r st' holds
          rcases holds with ⟨fallible, rfl, failed, rfl⟩ | ⟨asked, rfl⟩
          · rw [failed]
            exact unread fallible
          · rw [ite_self]
            exact .onward landed asked
      | none =>
          refine leaves_finish.bind ?_ ?_
          · intro nothing _ _ holds
            rcases holds with ⟨rfl, -, rfl⟩
            refine .pure ?_
            simp only [List.append_nil]
            exact .ended landed
          · intro nothing e _ holds
            cases holds.2.1
    · intro nothing e _ same
      rcases same with ⟨rfl, rfl, failed⟩
      exact unread (failed rfl)
  refine .afterGet ?_
  cases st with
  | idle => exact .pure (.notOwn nofun)
  | awaitingResume origin kind b identity => exact .pure (.notOwn nofun)
  | stepping t kind =>
      dsimp only
      split
      case isTrue same =>
        subst same
        exact leaves_go .plain
      case isFalse other => exact .pure (.notOwn fun own => other (Option.some.inj own))
  | awaitingYield t kind method b resumeOffset =>
      dsimp only
      split
      case isTrue same =>
        subst same
        refine (leaves_deactivate b).bind ?_ ?_
        · intro ms _ st' holds
          rcases holds with ⟨⟨reply, rfl⟩, -, rfl⟩
          exact .afterSet (leaves_go (.beforeYield method b resumeOffset reply))
        · intro ms e st' holds
          cases holds.2.1
      case isFalse other => exact .pure (.notOwn fun own => other (Option.some.inj own))

theorem leaves_identity (ctx : StepContext) (thread : ThreadId) :
    (identity? ctx thread).Leaves possible st fun ms r st' =>
      ms = [] ∧ st' = st ∧ ∃ id, r = .ok id := by
  refine .afterEval (Eval.orderly_fetchIdentity ctx.limit thread).unarmed fun found => ?_
  cases found with
  | ok id => exact .pure ⟨rfl, rfl, id, rfl⟩
  | error e => exact .pure ⟨rfl, rfl, none, rfl⟩

theorem leaves_pinIdentity (ctx : StepContext) (thread : ThreadId) :
    (pinIdentity ctx thread).Leaves possible st fun ms r st' =>
      ms = [] ∧ st' = st ∧ ∃ id, r = .ok id := by
  refine (leaves_identity ctx thread).bind ?_ ?_
  · intro ms identity st' holds
    rcases holds with ⟨rfl, rfl, -⟩
    cases identity with
    | none => exact .pure ⟨rfl, rfl, none, rfl⟩
    | some id =>
        refine .afterTry rfl fun pinned => ?_
        cases pinned with
        | ok handle => exact .pure ⟨rfl, rfl, some handle, rfl⟩
        | error e => exact .pure ⟨rfl, rfl, none, rfl⟩
  · intro ms e st' holds
    rcases holds with ⟨-, -, id, failed⟩
    cases failed

theorem leaves_onYield (ctx : StepContext) (thread : ThreadId) (kind : StepKind)
    (method : MethodRef) (b : NativeBreakpointId) (resumeOffset : UInt32) :
    (onYield ctx thread kind method b resumeOffset).Leaves possible
      (.awaitingYield thread kind method b resumeOffset) fun ms r st' =>
        Hits thread (.awaitingYield thread kind method b resumeOffset) ms r.isOk st' := by
  refine .afterArming rfl (fun _ => ?_) fun e => .notCalledOff kind method b resumeOffset e
  refine (leaves_deactivate b).bind ?_ ?_
  · intro ms _ st' holds
    rcases holds with ⟨⟨reply, rfl⟩, -, rfl⟩
    refine (leaves_pinIdentity ctx thread).bind ?_ ?_
    · intro nothing identity _ same
      rcases same with ⟨rfl, rfl, -⟩
      refine .afterTryArming rfl fun created => ?_
      cases created with
      | ok resume =>
          exact .afterSet (.pure (.yielded kind method b resume resumeOffset reply identity))
      | error e =>
          refine (leaves_releaseAll identity).bind ?_ ?_
          · intro more _ _ released
            rcases released with ⟨rfl, -, rfl⟩
            exact .throw (.notCreated kind method b resumeOffset reply e)
          · intro more e' _ released
            cases released.2.1
    · intro nothing e _ same
      rcases same with ⟨-, -, id, failed⟩
      cases failed
  · intro ms e st' holds
    cases holds.2.1

theorem leaves_isContinuation (ctx : StepContext) (thread origin : ThreadId)
    (identity : Option RemoteValue) :
    (isContinuation ctx thread origin identity).Leaves possible st fun ms _ st' =>
      ms = [] ∧ st' = st := by
  unfold isContinuation
  split
  · exact .pure ⟨rfl, rfl⟩
  · split
    · exact .pure ⟨rfl, rfl⟩
    · refine .afterCall rfl (fun expected => ?_) fun _ _ => ⟨rfl, rfl⟩
      refine (leaves_identity ctx thread).bind ?_ ?_
      · intro ms current st' holds
        rcases holds with ⟨rfl, rfl, -⟩
        cases current with
        | none => exact .pure ⟨rfl, rfl⟩
        | some current => exact .afterCall rfl (fun _ => .pure ⟨rfl, rfl⟩) fun _ _ => ⟨rfl, rfl⟩
      · intro ms e st' holds
        exact ⟨holds.1, holds.2.1⟩

theorem leaves_onResume (ctx : StepContext) (thread origin : ThreadId) (kind : StepKind)
    (b : NativeBreakpointId) (identity : Option RemoteValue) :
    (onResume ctx thread kind).Leaves possible (.awaitingResume origin kind b identity)
      fun ms r st' => Hits thread (.awaitingResume origin kind b identity) ms r.isOk st' := by
  refine leaves_finish.bind ?_ ?_
  · intro ms _ st' holds
    rcases holds with ⟨⟨reply, rfl⟩, -, rfl⟩
    have resumed (read : Bool) :
        Hits thread (.awaitingResume origin kind b identity) [switchOff b reply] read .idle :=
      .resumed origin kind b identity reply read
    refine .afterCall rfl (fun frames => ?_) fun _ _ => resumed false
    dsimp only
    split
    · exact .pure (resumed true)
    · refine (leaves_again ctx thread kind false).mono ?_
      intro more r st' holds
      rcases holds with ⟨-, rfl, failed, rfl⟩ | ⟨asked, rfl⟩
      · rw [failed]
        exact resumed false
      · exact .onward origin kind b identity reply asked
  · intro ms e st' holds
    cases holds.2.1

theorem leaves_onBreakpoint (ctx : StepContext) (thread : ThreadId) (hit : NativeBreakpointId) :
    (onBreakpoint ctx thread hit).Leaves possible st fun ms r st' =>
      Hits thread st ms r.isOk st' := by
  refine .afterGet ?_
  have withOutcome {before : StepState} {p : Stepping StepOutcome}
      (leaves : p.Leaves possible before fun ms r st' => Hits thread before ms r.isOk st') :
      (do let outcome ← p; return some outcome : Stepping (Option StepOutcome)).Leaves possible
        before fun ms r st' => Hits thread before ms r.isOk st' := by
    refine leaves.bind ?_ fun _ _ _ holds => holds
    intro ms outcome st' holds
    refine .pure ?_
    rw [List.append_nil]
    exact holds
  cases st with
  | idle => exact .pure (.unchanged _ true)
  | stepping t kind => exact .pure (.unchanged _ true)
  | awaitingYield origin kind method b resumeOffset =>
      dsimp only
      split
      · exact .pure (.unchanged _ true)
      · split
        · exact .pure (.unchanged _ true)
        case isFalse same =>
          obtain rfl := Classical.not_not.mp same
          exact withOutcome (leaves_onYield ctx origin kind method b resumeOffset)
  | awaitingResume origin kind b identity =>
      dsimp only
      split
      · exact .pure (.unchanged _ true)
      · refine (leaves_isContinuation ctx thread origin identity).bind ?_ ?_
        · intro ms continues _ same
          rcases same with ⟨rfl, rfl⟩
          cases continues with
          | false => exact .pure (.unchanged _ true)
          | true => exact withOutcome (leaves_onResume ctx thread origin kind b identity)
        · intro ms e _ same
          rcases same with ⟨rfl, rfl⟩
          exact .unchanged _ false

theorem leaves_cancel :
    cancel.Leaves possible st fun ms r st' => Drops st ms ∧ r.isOk = true ∧ st' = .idle := by
  refine .afterGet ?_
  cases st with
  | idle => exact .pure ⟨.idle, rfl, rfl⟩
  | stepping thread kind =>
      refine .afterTryArming rfl fun reply => leaves_finish.mono ?_
      intro ms r st' holds
      rcases holds with ⟨rfl, rfl, rfl⟩
      exact ⟨.stepping thread kind reply, rfl, rfl⟩
  | awaitingYield thread kind method b resumeOffset =>
      refine .afterTryArming rfl fun reply => leaves_finish.mono ?_
      intro ms r st' holds
      rcases holds with ⟨⟨reply', rfl⟩, rfl, rfl⟩
      exact ⟨.awaitingYield thread kind method b resumeOffset reply reply', rfl, rfl⟩
  | awaitingResume origin kind b identity =>
      refine leaves_finish.mono ?_
      intro ms r st' holds
      rcases holds with ⟨⟨reply, rfl⟩, rfl, rfl⟩
      exact ⟨.awaitingResume origin kind b identity reply, rfl, rfl⟩

end Functions

/-- The step controller does nothing else. -/
theorem leaves_program (ctx : StepContext) (command : StepCommand) (st : StepState) :
    (command.program ctx).Leaves possible st fun ms r st' =>
      Exits possible command st ms r.isOk st' := by
  cases command with
  | start thread kind => exact leaves_start ctx thread kind
  | complete thread reason =>
      refine (leaves_onStepComplete ctx thread reason).bind ?_ fun _ _ _ holds => holds
      intro ms outcome st' holds
      refine .pure ?_
      rw [List.append_nil]
      exact holds
  | hit thread breakpoint =>
      refine (leaves_onBreakpoint ctx thread breakpoint).bind ?_ fun _ _ _ holds => holds
      intro ms outcome st' holds
      refine .pure ?_
      rw [List.append_nil]
      exact holds
  | cancel => exact leaves_cancel

end Step

end ManagedDebugger
