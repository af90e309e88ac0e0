import ManagedDebugger.Proofs.Eval.Orderly.Variables
import ManagedDebugger.Proofs.Session.Task
import ManagedDebugger.Step.Controller

/-!
# Programs of the step controller

A program of the step controller is judged by three things: the operations that it performed, its
result and the step that is in flight afterwards. Each way of putting such programs together has a
rule here. No part of the step controller resumes the target but by remote calls.
-/

namespace ManagedDebugger

/-- Calls of the step controller. -/
def NativeCall.steps : NativeCall → Bool
  | frames _ | methodInfo _ | objectAddress _ | createBreakpoint .. | setBreakpointActive ..
  | step .. | cancelStep _ | createHandle _ | releaseHandle _ => true
  | _ => false

namespace Stepping

variable {possible : Exchange evalEffect → Prop} {α β : Type} {st : StepState}

/-- However a program ends that starts with a step in flight, its operations, its result and the
step in flight are as wanted. -/
def Ensures (possible : Exchange evalEffect → Prop) (p : Stepping α) (st : StepState)
    (Q : List EvalOp → Except EngineError α → StepState → Prop) : Prop :=
  Program.Ensures (.ofReplies possible) (p.run st) () fun es _ out =>
    Q (es.map (·.op)) out.1 out.2

theorem ensures_pure {a : α} {Q : List EvalOp → Except EngineError α → StepState → Prop}
    (holds : Q [] (.ok a) st) : (pure a : Stepping α).Ensures possible st Q :=
  Program.ensures_done_iff.mpr holds

theorem ensures_throw {e : EngineError}
    {Q : List EvalOp → Except EngineError α → StepState → Prop}
    (holds : Q [] (.error e) st) : (throw e : Stepping α).Ensures possible st Q :=
  Program.ensures_done_iff.mpr holds

theorem Ensures.mono {p : Stepping α}
    {P Q : List EvalOp → Except EngineError α → StepState → Prop}
    (ensured : p.Ensures possible st P)
    (implied : ∀ ops r st', P ops r st' → Q ops r st') :
    p.Ensures possible st Q :=
  Program.Ensures.mono ensured fun _ _ _ => implied _ _ _

theorem Ensures.bind {p : Stepping α} {f : α → Stepping β}
    {P : List EvalOp → Except EngineError α → StepState → Prop}
    {Q : List EvalOp → Except EngineError β → StepState → Prop}
    (first : p.Ensures possible st P)
    (ok : ∀ ops a st', P ops (.ok a) st' →
      (f a).Ensures possible st' fun more => Q (ops ++ more))
    (error : ∀ ops e st', P ops (.error e) st' → Q ops (.error e) st') :
    (p >>= f).Ensures possible st Q := by
  refine Program.Ensures.bind first fun es _ out holds => ?_
  obtain ⟨result, st'⟩ := out
  cases result with
  | ok a =>
      refine Program.Ensures.mono (ok _ a st' holds) fun more _ out holds => ?_
      rw [List.map_append]
      exact holds
  | error e =>
      refine Program.ensures_done_iff.mpr ?_
      rw [List.append_nil]
      exact error _ e st' holds

theorem ensures_true {p : Stepping α} : p.Ensures possible st fun _ _ _ => True :=
  fun _ _ _ _ _ => trivial

theorem ensures_set {st' : StepState}
    {Q : List EvalOp → Except EngineError PUnit → StepState → Prop}
    (holds : Q [] (.ok ⟨⟩) st') : (set st' : Stepping PUnit).Ensures possible st Q :=
  Program.ensures_done_iff.mpr holds

section Operation

variable {Q : List EvalOp → Except EngineError β → StepState → Prop}

theorem get_bind {f : StepState → Stepping β} (next : (f st).Ensures possible st Q) :
    (get >>= f).Ensures possible st Q := next

theorem set_bind {st' : StepState} {f : PUnit → Stepping β}
    (next : (f ⟨⟩).Ensures possible st' Q) :
    (set st' >>= f : Stepping β).Ensures possible st Q := next

theorem getModify_bind {g : StepState → StepState} {f : StepState → Stepping β}
    (next : (f st).Ensures possible (g st) Q) :
    (getModify g >>= f).Ensures possible st Q := next

theorem call_bind {c : NativeCall} {f : c.Answer → Stepping β}
    (ok : ∀ answer, possible ⟨.native c, .ok answer⟩ →
      (f answer).Ensures possible st fun more => Q (.native c :: more))
    (error : ∀ e, possible ⟨.native c, .error e⟩ →
      Q [.native c] (.error (.native e)) st) :
    (call c >>= f).Ensures possible st Q := by
  refine Program.ensures_perform_iff.mpr fun reply s replied => ?_
  cases reply with
  | ok answer => exact ok answer replied
  | error e => exact Program.ensures_done_iff.mpr (error e replied)

theorem tryCall_bind {c : NativeCall} {f : c.Reply → Stepping β}
    (next : ∀ reply, possible ⟨.native c, reply⟩ →
      (f reply).Ensures possible st fun more => Q (.native c :: more)) :
    (tryCall c >>= f).Ensures possible st Q :=
  Program.ensures_perform_iff.mpr fun reply _ replied => next reply replied

theorem tryEval_bind {p : Eval α} {f : Except EvalError α → Stepping β}
    (next : ∀ ops r, (f r).Ensures possible st fun more => Q (ops ++ more)) :
    (tryEval p >>= f).Ensures possible st Q := by
  refine Ensures.bind (P := fun _ r st' => st' = st ∧ ∃ a, r = .ok a) ?_ ?_ ?_
  · refine Program.Ensures.bind (P := fun _ _ out => out.2 = st) ?_ ?_
    · refine Program.Ensures.bind (P := fun _ _ _ => True) (fun _ _ _ _ _ => trivial) ?_
      exact fun _ _ _ _ => Program.ensures_done_iff.mpr rfl
    · intro es _ holds same
      obtain ⟨result, _⟩ := holds
      subst same
      exact Program.ensures_done_iff.mpr ⟨rfl, result, rfl⟩
  · intro ops r _ holds
    obtain ⟨rfl, _⟩ := holds
    exact next ops r
  · intro ops e st' holds
    obtain ⟨_, a, failed⟩ := holds
    cases failed

end Operation

section Transcript

variable {es : List (Exchange evalEffect)}

theorem plays_pure_iff {a : α} {out : Except EngineError α × StepState} :
    ((pure a : Stepping α).run st).Plays es out ↔ es = [] ∧ out = (.ok a, st) :=
  Program.plays_done_iff

theorem plays_set_iff {st' : StepState} {out : Except EngineError PUnit × StepState} :
    ((set st' : Stepping PUnit).run st).Plays es out ↔ es = [] ∧ out = (.ok ⟨⟩, st') :=
  Program.plays_done_iff

/-- An evaluation is played as it would be by itself. -/
theorem plays_tryEval_iff {p : Eval α} {out : Except EngineError (Except EvalError α) × StepState} :
    ((tryEval p).run st).Plays es out ↔ ∃ found, p.run.Plays es found ∧ out = (.ok found, st) := by
  constructor
  · intro played
    obtain ⟨_, _, _, inner, ended, rfl⟩ := Program.plays_bind_iff.mp played
    obtain ⟨rfl, rfl⟩ := Program.plays_done_iff.mp ended
    obtain ⟨_, found, _, evaluated, kept, rfl⟩ := Program.plays_bind_iff.mp inner
    obtain ⟨rfl, rfl⟩ := Program.plays_done_iff.mp kept
    simp only [List.append_nil]
    exact ⟨found, evaluated, rfl⟩
  · rintro ⟨found, evaluated, rfl⟩
    have kept := evaluated.bind (f := fun a => pure (a, st)) (.done (found, st))
    have wrapped := kept.bind (f := fun out => pure (Except.ok (ε := EngineError) out.1, out.2))
      (.done (Except.ok found, st))
    simp only [List.append_nil] at wrapped
    exact wrapped

variable {out : Except EngineError β × StepState}

/-- A program goes on only if its first part succeeds. -/
theorem plays_bind_iff {p : Stepping α} {f : α → Stepping β} :
    ((p >>= f).run st).Plays es out ↔
      (∃ e st', (p.run st).Plays es (.error e, st') ∧ out = (.error e, st')) ∨
        ∃ first a st' rest, es = first ++ rest ∧ (p.run st).Plays first (.ok a, st') ∧
          ((f a).run st').Plays rest out := by
  refine Program.plays_bind_iff.trans ⟨?_, ?_⟩
  · rintro ⟨first, ⟨result, st'⟩, rest, left, right, rfl⟩
    cases result with
    | ok a => exact .inr ⟨first, a, st', rest, rfl, left, right⟩
    | error e =>
        obtain ⟨rfl, rfl⟩ := Program.plays_done_iff.mp right
        rw [List.append_nil]
        exact .inl ⟨e, st', left, rfl⟩
  · rintro (⟨e, st', left, rfl⟩ | ⟨first, a, st', rest, rfl, left, right⟩)
    · exact ⟨es, _, [], left, .done _, (List.append_nil es).symm⟩
    · exact ⟨first, _, rest, left, right, rfl⟩

theorem plays_call_bind_iff {c : NativeCall} {f : c.Answer → Stepping β} :
    ((call c >>= f).run st).Plays es out ↔
      (∃ e, es = [⟨.native c, .error e⟩] ∧ out = (.error (.native e), st)) ∨
        ∃ answer rest, es = ⟨.native c, .ok answer⟩ :: rest ∧
          ((f answer).run st).Plays rest out := by
  refine Program.plays_perform_iff.trans ⟨?_, ?_⟩
  · rintro ⟨reply, rest, rfl, continued⟩
    cases reply with
    | ok answer => exact .inr ⟨answer, rest, rfl, continued⟩
    | error e =>
        obtain ⟨rfl, same⟩ := Program.plays_done_iff.mp continued
        exact .inl ⟨e, rfl, same⟩
  · rintro (⟨e, rfl, rfl⟩ | ⟨answer, rest, rfl, continued⟩)
    · exact ⟨.error e, [], rfl, .done _⟩
    · exact ⟨.ok answer, rest, rfl, continued⟩

end Transcript

/-- Whatever step is in flight, the target is not resumed but by remote calls. -/
def Steady (p : Stepping α) : Prop := ∀ st, Eval.Steady (p.run st)

theorem Ensures.steady {p : Stepping α} {Q : List EvalOp → Except EngineError α → StepState → Prop}
    (ensured : p.Ensures possible st Q) (steady : p.Steady) :
    p.Ensures possible st fun ops r st' => Q ops r st' ∧ Resumes 0 ops :=
  fun es s out played allowed =>
    ⟨ensured es s out played allowed, steady st es out played⟩

namespace Steady

theorem pure (a : α) : Steady (Pure.pure a : Stepping α) := fun _ => .done _

theorem throw (e : EngineError) : Steady (throw e : Stepping α) := fun _ => .done _

theorem bind {p : Stepping α} {f : α → Stepping β} (first : p.Steady)
    (second : ∀ a, (f a).Steady) : (p >>= f).Steady := by
  refine fun st => .bind (first st) fun out => ?_
  obtain ⟨result, st'⟩ := out
  cases result with
  | ok a => exact second a st'
  | error e => exact .done _

theorem get : Steady (MonadState.get : Stepping StepState) := fun _ => .done _

theorem set (st : StepState) : Steady (MonadStateOf.set st : Stepping PUnit) := fun _ => .done _

theorem getModify (f : StepState → StepState) : Steady (getModify f : Stepping StepState) :=
  fun _ => .done _

theorem call {c : NativeCall} (other : c ≠ .continueProcess) : Steady (Stepping.call c) :=
  fun _ => .perform (resumes_single (by simpa using other) nofun) fun _ => .done _

theorem tryCall {c : NativeCall} (other : c ≠ .continueProcess) : Steady (Stepping.tryCall c) :=
  fun _ => .perform (resumes_single (by simpa using other) nofun) fun _ => .done _

theorem tryEval {p : Eval α} (steady : Eval.Steady p.run) : Steady (Stepping.tryEval p) :=
  fun _ => .bind (.bind steady fun _ => .done _) fun _ => .done _

end Steady

/-- A program of calls that have to do with stepping, and of evaluations. -/
inductive Orderly : {α : Type} → Stepping α → Prop where
  | pure {α : Type} (a : α) : Orderly (pure a)
  | throw {α : Type} (e : EngineError) : Orderly (throw e : Stepping α)
  | bind {α β : Type} {p : Stepping α} {f : α → Stepping β} :
      Orderly p → (∀ a, Orderly (f a)) → Orderly (p >>= f)
  | get : Orderly (get : Stepping StepState)
  | set (st : StepState) : Orderly (set st : Stepping PUnit)
  | getModify (f : StepState → StepState) : Orderly (getModify f : Stepping StepState)
  | call {c : NativeCall} : c.steps = true → Orderly (Stepping.call c)
  | tryCall {c : NativeCall} : c.steps = true → Orderly (Stepping.tryCall c)
  | tryEval {α : Type} {faulty : Bool} {limit : Option Nat} {thread : ThreadId} {p : Eval α} :
      Eval.Orderly faulty limit thread p → Orderly (Stepping.tryEval p)

theorem Orderly.steady {p : Stepping α} (orderly : p.Orderly) : p.Steady := by
  have other {c : NativeCall} (steps : c.steps = true) : c ≠ .continueProcess := by
    intro same
    subst same
    cases steps
  induction orderly with
  | pure a => exact .pure a
  | throw e => exact .throw e
  | bind _ _ first second => exact .bind first second
  | get => exact .get
  | set st => exact .set st
  | getModify f => exact .getModify f
  | call steps => exact .call (other steps)
  | tryCall steps => exact .tryCall (other steps)
  | tryEval orderly => exact .tryEval orderly.steady

end Stepping

end ManagedDebugger
