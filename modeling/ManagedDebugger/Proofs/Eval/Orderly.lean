import ManagedDebugger.Eval.RemoteCall
import ManagedDebugger.Proofs.Program.Transcript

/-!
# What evaluations do to the target

An orderly evaluation does two things to the target: it inspects it, and it makes remote calls, all
of them on one thread and with one limit of time. The central fact about such an evaluation is that
it never resumes the target on its own account: each resume follows directly on the registration of
the remote call that it is for. An orderly evaluation also tells the errors of the program that is
evaluated from all others: unless the program may be faulty, no error of compilation comes out.
-/

namespace ManagedDebugger

/-- Calls that read the target, or make a value there, and leave it stopped. -/
def NativeCall.inspects : NativeCall → Bool
  | frames _ | arguments .. | locals .. | methodInfo _ | readPrimitive _ | readString _ | unbox _
  | objectAddress _ | typeOf _ | typeInfo _ | findType .. | arrayDimensions _ | arrayElement ..
  | fieldValue .. | staticFieldValue .. | createPrimitive .. | createNull _ => true
  | launch _ | attach _ | detach | terminate | continueProcess | stopProcess | createBreakpoint ..
  | setBreakpointActive .. | step .. | cancelStep _ | threads | moduleSymbols _ | beginCall ..
  | beginString .. | abortEval _ | createHandle _ | releaseHandle _ => false

/-- A program of calls that only inspect. -/
inductive Native.Inspects : {α : Type} → Native α → Prop where
  | pure {α : Type} (a : α) : Inspects (pure a)
  | bind {α β : Type} {p : Native α} {f : α → Native β} :
      Inspects p → (∀ a, Inspects (f a)) → Inspects (p >>= f)
  | call (c : NativeCall) : c.inspects = true → Inspects (Native.call c)

namespace Eval

/-- What is evaluated may be a faulty program, which is then told so. -/
inductive Orderly (faulty : Bool) (limit : Option Nat) (thread : ThreadId) :
    {α : Type} → Eval α → Prop where
  | pure {α : Type} (a : α) : Orderly faulty limit thread (pure a)
  | fail {α : Type} (e : EvalError) :
      (e.kind = .compilation → faulty = true) → Orderly faulty limit thread (throw e : Eval α)
  | bind {α β : Type} {p : Eval α} {f : α → Eval β} :
      Orderly faulty limit thread p → (∀ a, Orderly faulty limit thread (f a)) →
        Orderly faulty limit thread (p >>= f)
  | native (c : NativeCall) : c.inspects = true → Orderly faulty limit thread (Eval.native c)
  /-- The outcome, whatever it is, is a value. -/
  | attempt {α : Type} {p : Eval α} :
      Orderly faulty limit thread p → Orderly faulty limit thread (ExceptT.lift (Eval.attempt p))
  | call (method : MethodRef) (typeArguments : List TypeRef) (arguments : List RemoteValue) :
      Orderly faulty limit thread (RemoteCall.call limit thread method typeArguments arguments)
  | string (text : String) :
      Orderly faulty limit thread
        (RemoteCall.run limit thread (Native.call (.beginString thread text)))

@[simp]
theorem ofNative_bind {α β : Type} (p : Native α) (f : α → Native β) :
    ofNative (p >>= f) = ofNative p >>= fun a => ofNative (f a) := by
  simp only [ofNative, Program.evaluating]
  change Program.bind (Program.translate EvalOp.ofNative (Program.bind p.run _)) _ =
    Program.bind (Program.bind (Program.translate EvalOp.ofNative p.run) _) _
  simp only [Program.translate_bind, Program.bind_assoc]
  congr 1
  funext result
  cases result with
  | ok a => rfl
  | error e => rfl

theorem Orderly.ofNative {faulty : Bool} {limit : Option Nat} {thread : ThreadId} {α : Type}
    {p : Native α} (inspects : p.Inspects) : Orderly faulty limit thread (ofNative p) := by
  induction inspects with
  | pure a => exact .pure a
  | bind _ _ first second =>
      rw [ofNative_bind]
      exact .bind first second
  | call c inspects => exact .native c inspects

/-- An error of compilation, which there is only if the program may be faulty. -/
theorem Orderly.fault {faulty : Bool} {limit : Option Nat} {thread : ThreadId} {α : Type}
    (e : EvalError) (blamed : faulty ≠ false) : Orderly faulty limit thread (throw e : Eval α) :=
  .fail e fun _ => eq_true_of_ne_false blamed

end Eval

/-- The resumes of the target in a list of operations, but for those that set off an evaluation that
was registered just before. -/
def ownResumes : List EvalOp → Nat
  | .register .. :: .native .continueProcess :: rest => ownResumes rest
  | .native .continueProcess :: rest => ownResumes rest + 1
  | _ :: rest => ownResumes rest
  | [] => 0

/-- Operations that contain so many resumes of their own, whatever comes after them. -/
def Resumes (n : Nat) (ops : List EvalOp) : Prop :=
  ∀ rest, ownResumes (ops ++ rest) = n + ownResumes rest

namespace Resumes

theorem count {n : Nat} {ops : List EvalOp} (resumes : Resumes n ops) : ownResumes ops = n := by
  simpa [ownResumes] using resumes []

theorem nil : Resumes 0 [] := fun rest => by simp

theorem append {m n : Nat} {first second : List EvalOp} (left : Resumes m first)
    (right : Resumes n second) : Resumes (m + n) (first ++ second) := fun rest => by
  rw [List.append_assoc, left, right, Nat.add_assoc]

theorem append_none {first second : List EvalOp} (left : Resumes 0 first)
    (right : Resumes 0 second) : Resumes 0 (first ++ second) := left.append right

end Resumes

/-- A single operation that neither resumes nor registers. -/
theorem resumes_single {op : EvalOp} (resume : op ≠ .native .continueProcess)
    (register : ∀ eval thread, op ≠ .register eval thread) : Resumes 0 [op] := by
  intro rest
  rw [List.singleton_append, Nat.zero_add]
  cases op with
  | native c =>
      cases c with
      | continueProcess => exact absurd rfl resume
      | _ => rfl
  | register eval thread => exact absurd rfl (register eval thread)
  | cancel eval => rfl
  | wait ticket limit => rfl

namespace Eval

variable {faulty : Bool} {limit : Option Nat} {thread : ThreadId} {α β : Type}

/-- Whatever is replied, the target is not resumed but by remote calls. -/
def Steady (p : Program evalEffect α) : Prop :=
  ∀ es r, p.Plays es r → Resumes 0 (es.map (·.op))

namespace Steady

theorem done (a : α) : Steady (Program.done a : Program evalEffect α) := by
  intro es r played
  obtain ⟨rfl, rfl⟩ := Program.plays_done_iff.mp played
  exact .nil

theorem bind {p : Program evalEffect α} {f : α → Program evalEffect β} (first : Steady p)
    (second : ∀ a, Steady (f a)) : Steady (p.bind f) := by
  intro es r played
  obtain ⟨es₁, a, es₂, left, right, rfl⟩ := Program.plays_bind_iff.mp played
  rw [List.map_append]
  exact (first es₁ a left).append_none (second a es₂ r right)

theorem perform {op : EvalOp} {next : op.Reply → Program evalEffect α} (single : Resumes 0 [op])
    (continued : ∀ reply, Steady (next reply)) :
    Steady (Program.perform (E := evalEffect) op next) := by
  intro es r played
  obtain ⟨reply, rest, rfl, following⟩ := Program.plays_perform_iff.mp played
  exact single.append_none (continued reply rest r following)

/-- A registration with the resume that it is for. -/
theorem registered {eval : EvalId} {owner : ThreadId}
    {next : Ticket → NativeCall.continueProcess.Reply → Program evalEffect α}
    (continued : ∀ ticket reply, Steady (next ticket reply)) :
    Steady (Program.perform (E := evalEffect) (.register eval owner) fun ticket =>
      Program.perform (E := evalEffect) (.native .continueProcess) (next ticket)) := by
  intro es r played
  obtain ⟨ticket, resumed, rfl, resuming⟩ := Program.plays_perform_iff.mp played
  obtain ⟨reply, rest, rfl, following⟩ := Program.plays_perform_iff.mp resuming
  exact fun more => continued ticket reply rest r following more

end Steady

theorem resumes_inspection {c : NativeCall} (inspects : c.inspects = true) :
    Resumes 0 [.native c] := by
  refine resumes_single ?_ fun _ _ => nofun
  intro resumed
  cases resumed
  cases inspects

theorem steady_pure (a : α) : Steady (pure a : Eval α).run := .done _

theorem steady_throw (e : EvalError) : Steady (throw e : Eval α).run := .done _

theorem steady_bind {p : Eval α} {f : α → Eval β} (first : Steady p.run)
    (second : ∀ a, Steady (f a).run) : Steady (p >>= f).run := by
  refine first.bind fun result => ?_
  cases result with
  | ok a => exact second a
  | error e => exact .done _

theorem steady_native {c : NativeCall} (single : Resumes 0 [.native c]) :
    Steady (Eval.native c).run :=
  .perform single fun _ => .done _

/-- A remote call resumes the target once, for itself. -/
theorem steady_run {start : Native EvalId} (begun : Steady (ofNative start).run) :
    Steady (RemoteCall.run limit thread start).run := by
  refine steady_bind begun fun eval => ?_
  refine .registered fun ticket reply => ?_
  cases reply with
  | error e => exact .perform (resumes_single nofun nofun) fun _ => .done _
  | ok _ =>
      refine .perform (resumes_single nofun nofun) fun delivery => ?_
      match delivery with
      | some (.outcome (.completed result)) => exact .done _
      | some (.outcome (.threw exception)) => exact .done _
      | some .closed => exact .done _
      | none =>
          refine .perform (resumes_single nofun nofun) fun _ => ?_
          exact .perform (resumes_single nofun nofun) fun _ => .done _

theorem Orderly.steady {p : Eval α} (orderly : Orderly faulty limit thread p) : Steady p.run := by
  induction orderly with
  | pure a => exact steady_pure a
  | fail e _ => exact steady_throw e
  | bind _ _ first second => exact steady_bind first second
  | native c inspects => exact steady_native (resumes_inspection inspects)
  | attempt _ steady => exact steady.bind fun _ => .done _
  | call method typeArguments arguments =>
      exact steady_run (steady_native (resumes_single nofun nofun))
  | string text => exact steady_run (steady_native (resumes_single nofun nofun))

end Eval

/-- Operations of which orderly evaluations are made: inspections, and the parts of remote calls. -/
def EvalOp.evaluates : EvalOp → Bool
  | native .continueProcess | native (.beginCall ..) | native (.beginString ..)
  | native (.abortEval _) => true
  | native c => c.inspects
  | register .. | cancel _ | wait .. => true

theorem EvalOp.evaluates_of_inspects {c : NativeCall} (inspects : c.inspects = true) :
    (EvalOp.native c).evaluates = true := by
  cases c <;> first | rfl | cases inspects

/-- What a remote call does once it is begun. -/
def EvalOp.carriesOut : EvalOp → Bool
  | native .continueProcess | native (.abortEval _) | register .. | cancel _ | wait .. => true
  | native _ => false

theorem EvalOp.evaluates_of_carriesOut {op : EvalOp} (carriesOut : op.carriesOut = true) :
    op.evaluates = true := by
  cases op with
  | native c => cases c <;> first | rfl | cases carriesOut
  | _ => rfl

/-- Of a remote call only the beginning is left open. -/
theorem Program.Only.remoteCall {kind : EvalOp → Prop} {limit : Option Nat} {thread : ThreadId}
    {start : Native EvalId} (begun : (Eval.ofNative start).run.Only kind)
    (rest : ∀ op : EvalOp, op.carriesOut = true → kind op) :
    (RemoteCall.run limit thread start).run.Only kind := by
  refine .run_bind begun fun eval => ?_
  refine .perform (rest _ rfl) fun ticket => .perform (rest _ rfl) fun reply => ?_
  cases reply with
  | error e => exact .perform (rest _ rfl) fun _ => .done _
  | ok _ =>
      refine .perform (rest _ rfl) fun delivery => ?_
      match delivery with
      | some (.outcome (.completed result)) => exact .done _
      | some (.outcome (.threw exception)) => exact .done _
      | some .closed => exact .done _
      | none => exact .perform (rest _ rfl) fun _ => .perform (rest _ rfl) fun _ => .done _

namespace Eval

variable {faulty : Bool} {limit : Option Nat} {thread : ThreadId} {α β : Type}

/-- Whatever is replied, nothing else is done than evaluations are made of. -/
abbrev Evaluates (p : Program evalEffect α) : Prop := p.Only fun op => op.evaluates = true

namespace Evaluates

theorem native {c : NativeCall} (evaluates : (EvalOp.native c).evaluates = true) :
    Evaluates (Eval.native c).run :=
  Program.Only.perform evaluates fun _ => .done _

theorem remoteCall {start : Native EvalId} (begun : Evaluates (ofNative start).run) :
    Evaluates (RemoteCall.run limit thread start).run :=
  Program.Only.remoteCall begun fun _ => EvalOp.evaluates_of_carriesOut

end Evaluates

theorem Orderly.evaluates {p : Eval α} (orderly : Orderly faulty limit thread p) :
    Evaluates p.run := by
  induction orderly with
  | pure a => exact Program.Only.done _
  | fail e _ => exact Program.Only.done _
  | bind _ _ first second => exact Program.Only.run_bind first second
  | native c inspects => exact .native (EvalOp.evaluates_of_inspects inspects)
  | attempt _ evaluates => exact Program.Only.bind evaluates fun _ => .done _
  | call method typeArguments arguments => exact .remoteCall (.native rfl)
  | string text => exact .remoteCall (.native rfl)

end Eval

end ManagedDebugger
