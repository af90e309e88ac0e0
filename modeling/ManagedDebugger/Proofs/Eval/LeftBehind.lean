import ManagedDebugger.Eval.RemoteCall
import ManagedDebugger.Proofs.Eval.Waiters
import ManagedDebugger.Proofs.Session.Task
import ManagedDebugger.Simulation.Reaction

/-!
# What a failed remote call leaves behind

A remote call that was accepted by the target and fails then takes itself off the table of those
who wait. It calls the evaluation off as well if it took too long, but not if the target refuses to
go on. So an evaluation that is still queued after its call has failed is one whose resume was
refused, and the next resume, whoever asks for it, runs it.
-/

namespace ManagedDebugger

variable {τ α : Type}

/-- The evaluation that the target has accepted. -/
def Exchange.accepted? : Exchange evalEffect → Option EvalId
  | ⟨.native (.beginCall ..), .ok eval⟩ => some eval
  | ⟨.native (.beginString ..), .ok eval⟩ => some eval
  | _ => none

namespace RemoteCall

variable {limit : Option Nat} {thread : ThreadId} {eval : EvalId} {es : List (Exchange evalEffect)}
  {result : Except EvalError (Option RemoteValue)}

/-! ## The course of a call -/

/-- What comes of what a ticket is told. -/
def verdict (eval : EvalId) : Delivery → Except EvalError (Option RemoteValue)
  | .outcome (.completed value) => .ok value
  | .outcome (.threw exception) => .error (.remoteFault exception)
  | .closed => .error (.native (.evalAborted eval))

/-- What is left of a call once the target has accepted it. -/
def onceAccepted (limit : Option Nat) (thread : ThreadId) (eval : EvalId) :
    Program evalEffect (Except EvalError (Option RemoteValue)) :=
  .perform (.register eval thread) fun ticket =>
    .perform (.native .continueProcess) fun
      | .error e => .perform (.cancel eval) fun _ => .done (.error (.native e))
      | .ok () => .perform (.wait ticket limit) fun
        | some d => .done (verdict eval d)
        | none => .perform (.cancel eval) fun _ =>
          .perform (.native (.abortEval eval)) fun _ => .done (.error .timeout)

theorem run_eq (limit : Option Nat) (thread : ThreadId) (start : Native EvalId) :
    (run limit thread start).run = (Eval.ofNative start).run.bind fun
      | .ok eval => onceAccepted limit thread eval
      | .error e => .done (.error e) := by
  refine congrArg (Program.bind (Eval.ofNative start).run) (funext fun begun => ?_)
  cases begun with
  | error e => rfl
  | ok eval =>
      refine congrArg (Program.perform _) (funext fun ticket => ?_)
      refine congrArg (Program.perform _) (funext fun resumed => ?_)
      cases resumed with
      | error e => rfl
      | ok _ =>
          refine congrArg (Program.perform _) (funext fun answer => ?_)
          match answer with
          | some (.outcome (.completed value)) => rfl
          | some (.outcome (.threw exception)) => rfl
          | some .closed => rfl
          | none => rfl

/-- The target refuses to go on. -/
def refusal (eval : EvalId) (thread : ThreadId) (ticket : Ticket) (e : NativeError) :
    List (Exchange evalEffect) :=
  [⟨.register eval thread, ticket⟩, ⟨.native .continueProcess, .error e⟩, ⟨.cancel eval, ()⟩]

/-- The target goes on, and the time runs out. -/
def expiry (eval : EvalId) (thread : ThreadId) (ticket : Ticket) (limit : Option Nat)
    (reply : NativeCall.Reply (.abortEval eval)) : List (Exchange evalEffect) :=
  [⟨.register eval thread, ticket⟩, ⟨.native .continueProcess, .ok ()⟩, ⟨.wait ticket limit, none⟩,
    ⟨.cancel eval, ()⟩, ⟨.native (.abortEval eval), reply⟩]

/-- The ways in which a call goes on that was accepted. -/
inductive Course (limit : Option Nat) (thread : ThreadId) (eval : EvalId) :
    List (Exchange evalEffect) → Except EvalError (Option RemoteValue) → Prop where
  | refused (ticket : Ticket) (e : NativeError) :
      Course limit thread eval (refusal eval thread ticket e) (.error (.native e))
  | told (ticket : Ticket) (d : Delivery) :
      Course limit thread eval
        [⟨.register eval thread, ticket⟩, ⟨.native .continueProcess, .ok ()⟩,
          ⟨.wait ticket limit, some d⟩]
        (verdict eval d)
  | expired (ticket : Ticket) (reply : NativeCall.Reply (.abortEval eval)) :
      Course limit thread eval (expiry eval thread ticket limit reply) (.error .timeout)

theorem course_of_plays (played : (onceAccepted limit thread eval).Plays es result) :
    Course limit thread eval es result := by
  obtain ⟨ticket, _, rfl, resuming⟩ := Program.plays_perform_iff.mp played
  obtain ⟨resumed, _, rfl, going⟩ := Program.plays_perform_iff.mp resuming
  cases resumed with
  | error e =>
      obtain ⟨⟨⟩, _, rfl, ended⟩ := Program.plays_perform_iff.mp going
      obtain ⟨rfl, rfl⟩ := Program.plays_done_iff.mp ended
      exact .refused ticket e
  | ok _ =>
      obtain ⟨answer, _, rfl, waited⟩ := Program.plays_perform_iff.mp going
      cases answer with
      | some d =>
          obtain ⟨rfl, rfl⟩ := Program.plays_done_iff.mp waited
          exact .told ticket d
      | none =>
          obtain ⟨⟨⟩, _, rfl, aborting⟩ := Program.plays_perform_iff.mp waited
          obtain ⟨reply, _, rfl, ended⟩ := Program.plays_perform_iff.mp aborting
          obtain ⟨rfl, rfl⟩ := Program.plays_done_iff.mp ended
          exact .expired ticket reply

theorem Course.accepted?_eq_none {rest : List (Exchange evalEffect)}
    (course : Course limit thread eval rest result) : ∀ x ∈ rest, x.accepted? = none := by
  cases course <;> simp [Exchange.accepted?, refusal, expiry]

/-- The target is asked first. If it accepts, the call takes its course. -/
theorem course_of_plays_run {start : Native EvalId} {x : Exchange evalEffect}
    (asked : ∀ first begun, (Eval.ofNative start).run.Plays first begun →
      ∃ x, first = [x] ∧ x.accepted? = begun.toOption)
    (played : (run limit thread start).run.Plays es result) (isElement : x ∈ es)
    (accepted : x.accepted? = some eval) :
    ∃ rest, es = x :: rest ∧ Course limit thread eval rest result := by
  rw [run_eq] at played
  obtain ⟨first, begun, rest, left, right, rfl⟩ := Program.plays_bind_iff.mp played
  obtain ⟨y, rfl, same⟩ := asked first begun left
  cases begun with
  | error e =>
      obtain ⟨rfl, rfl⟩ := Program.plays_done_iff.mp right
      obtain rfl := List.mem_singleton.mp isElement
      cases accepted.symm.trans same
  | ok other =>
      have course := course_of_plays right
      rcases List.mem_cons.mp isElement with rfl | later
      · obtain rfl := Option.some.inj (accepted.symm.trans same)
        exact ⟨rest, rfl, course⟩
      · cases accepted.symm.trans (course.accepted?_eq_none x later)

theorem plays_call {call : NativeCall} {begun : Except EvalError call.Answer}
    (played : (Eval.ofNative (Native.call call)).run.Plays es begun) :
    ∃ reply : call.Reply, es = [⟨.native call, reply⟩] ∧ begun = reply.mapError .native := by
  obtain ⟨reply, rest, rfl, replied⟩ := Program.plays_perform_iff.mp played
  obtain ⟨rfl, rfl⟩ := Program.plays_done_iff.mp replied
  refine ⟨reply, rfl, ?_⟩
  cases reply with
  | error e => rfl
  | ok eval => rfl

/-- What asks for a call, and its course if the target accepts it. -/
theorem plays_run {start : Native EvalId} (played : (run limit thread start).run.Plays es result) :
    ∃ first begun rest, (Eval.ofNative start).run.Plays first begun ∧ es = first ++ rest ∧
      (rest = [] ∨ ∃ eval, Course limit thread eval rest result) := by
  rw [run_eq] at played
  obtain ⟨first, begun, rest, asked, right, rfl⟩ := Program.plays_bind_iff.mp played
  refine ⟨first, begun, rest, asked, rfl, ?_⟩
  cases begun with
  | error e => exact .inl (Program.plays_done_iff.mp right).1
  | ok eval => exact .inr ⟨eval, course_of_plays right⟩

theorem asked_beginCall {method : MethodRef} {typeArguments : List TypeRef}
    {arguments : List RemoteValue} {begun : Except EvalError EvalId}
    (played : (Eval.ofNative
      (Native.call (.beginCall thread method typeArguments arguments))).run.Plays es begun) :
    ∃ x, es = [x] ∧ x.accepted? = begun.toOption := by
  obtain ⟨reply, rfl, rfl⟩ := plays_call played
  cases reply with
  | error e => exact ⟨_, rfl, rfl⟩
  | ok eval => exact ⟨_, rfl, rfl⟩

theorem asked_beginString {text : String} {begun : Except EvalError EvalId}
    (played : (Eval.ofNative (Native.call (.beginString thread text))).run.Plays es begun) :
    ∃ x, es = [x] ∧ x.accepted? = begun.toOption := by
  obtain ⟨reply, rfl, rfl⟩ := plays_call played
  cases reply with
  | error e => exact ⟨_, rfl, rfl⟩
  | ok eval => exact ⟨_, rfl, rfl⟩

/-- The two kinds of remote calls. -/
inductive Remote (limit : Option Nat) (thread : ThreadId) : {α : Type} → Eval α → Prop where
  | call (method : MethodRef) (typeArguments : List TypeRef) (arguments : List RemoteValue) :
      Remote limit thread (call limit thread method typeArguments arguments)
  | newString (text : String) : Remote limit thread (newString limit thread text)

/-- Both take the same course. -/
theorem Remote.course {p : Eval α} {r : Except EvalError α} (remote : Remote limit thread p)
    (played : p.run.Plays es r) {x : Exchange evalEffect} (isElement : x ∈ es)
    (accepted : x.accepted? = some eval) :
    ∃ rest result, es = x :: rest ∧ Course limit thread eval rest result := by
  cases remote with
  | call method typeArguments arguments =>
      obtain ⟨rest, split, course⟩ :=
        course_of_plays_run (fun _ _ => asked_beginCall) played isElement accepted
      exact ⟨rest, r, split, course⟩
  | newString text =>
      obtain ⟨first, value, second, left, right, rfl⟩ := Program.plays_bind_iff.mp played
      have silent : second = [] := by
        match value with
        | .ok (some v) => exact (Program.plays_done_iff.mp right).1
        | .ok none => exact (Program.plays_done_iff.mp right).1
        | .error e => exact (Program.plays_done_iff.mp right).1
      rw [silent, List.append_nil] at isElement ⊢
      obtain ⟨rest, split, course⟩ :=
        course_of_plays_run (fun _ _ => asked_beginString) left isElement accepted
      exact ⟨rest, value, split, course⟩

/-! ## What is around a call -/

/-- Whoever waits and a target, in between whose changes others go on. -/
def around (target : Environment nativeEffect τ) (others : Waiters × τ → Waiters × τ → Prop) :
    Environment evalEffect (Waiters × τ)
  | s, ⟨.native call, reply⟩, s' =>
    ∃ w t, others s (w, t) ∧ target t ⟨call, reply⟩ s'.2 ∧ s'.1 = w
  | s, ⟨.register eval thread, ticket⟩, s' =>
    ∃ w t, others s (w, t) ∧ w.register eval thread = (ticket, s'.1) ∧ s'.2 = t
  | s, ⟨.cancel eval, _⟩, s' => ∃ w t, others s (w, t) ∧ s' = (w.cancel eval, t)
  | s, ⟨.wait ticket _, some d⟩, s' =>
    ∃ w t, others s (w, t) ∧ w.take? ticket = some (d, s'.1) ∧ s'.2 = t
  | s, ⟨.wait _ _, none⟩, s' => others s s'

/-- A target queues the evaluations that it accepts, and takes off the queue what is aborted. -/
structure Queues (target : Environment nativeEffect τ) (queued : τ → EvalId → Prop) : Prop where
  begun : ∀ {t x t' eval}, target t x t' → x.ofNative.accepted? = some eval → queued t' eval
  aborted : ∀ {t t' eval}, target t ⟨.abortEval eval, .ok ()⟩ t' → ¬ queued t' eval

/-- A target that refuses to go on leaves what it has queued. -/
def Keeps (target : Environment nativeEffect τ) (queued : τ → EvalId → Prop) : Prop :=
  ∀ t e t' eval, target t ⟨.continueProcess, .error e⟩ t' → queued t eval → queued t' eval

/-- The target refused to go on. -/
def Refused (es : List (Exchange evalEffect)) : Prop :=
  ∃ e, ⟨.native .continueProcess, .error e⟩ ∈ es

/-- The time was up. -/
def Expired (es : List (Exchange evalEffect)) : Prop :=
  ∃ ticket limit, ⟨.wait ticket limit, none⟩ ∈ es

variable {target : Environment nativeEffect τ} {queued : τ → EvalId → Prop}
  {others : Waiters × τ → Waiters × τ → Prop} {s s' : Waiters × τ} {x : Exchange evalEffect}
  {ticket : Ticket}

/-- Whatever is not accepted there is elsewhere. -/
theorem mem_cons_iff_of_accepted {y : Exchange evalEffect} (accepted : x.accepted? = some eval)
    (silent : y.accepted? = none) : y ∈ x :: es ↔ y ∈ es := by
  constructor
  · intro isElement
    rcases List.mem_cons.mp isElement with rfl | later
    · cases silent.symm.trans accepted
    · exact later
  · exact List.mem_cons_of_mem x

theorem refused_cons_iff (accepted : x.accepted? = some eval) : Refused (x :: es) ↔ Refused es :=
  exists_congr fun _ => mem_cons_iff_of_accepted accepted rfl

theorem expired_cons_iff (accepted : x.accepted? = some eval) : Expired (x :: es) ↔ Expired es :=
  exists_congr fun _ => exists_congr fun _ => mem_cons_iff_of_accepted accepted rfl

/-- Others do not make it false. -/
def Stable (others : Waiters × τ → Waiters × τ → Prop) (holds : Waiters × τ → Prop) : Prop :=
  ∀ s s', others s s' → holds s → holds s'

/-- What a call leaves behind that was accepted and has failed. -/
structure Leaves (target : Environment nativeEffect τ) (queued : τ → EvalId → Prop)
    (others : Waiters × τ → Waiters × τ → Prop) (eval : EvalId) (es : List (Exchange evalEffect))
    (s : Waiters × τ) : Prop where
  unregistered : s.1.pending.get? eval = none
  /-- Only a call that could not resume the target leaves its evaluation there. -/
  refused : queued s.2 eval → Refused es
  /-- It does so unless somebody else has the target run it. -/
  queued_iff : Keeps target queued → (Stable others fun s => queued s.2 eval) →
    (queued s.2 eval ↔ Refused es)

theorem queued_of_accepted (queues : Queues target queued)
    (happens : around target others s x s') (accepted : x.accepted? = some eval) :
    queued s'.2 eval := by
  obtain ⟨op, reply⟩ := x
  cases op with
  | native call =>
      obtain ⟨w, t, -, replied, -⟩ := happens
      exact queues.begun replied accepted
  | register other thread => cases accepted
  | cancel other => cases accepted
  | wait ticket limit => cases accepted

/-- Nobody waits for the call any more, but nobody has called the evaluation off. -/
theorem leaves_refusal {e : NativeError} (queues : Queues target queued)
    (accepted : x.accepted? = some eval)
    (allowed : (around target others).Allows s (x :: refusal eval thread ticket e) s') :
    Leaves target queued others eval (x :: refusal eval thread ticket e) s' := by
  obtain ⟨s₁, begun, allowed₁⟩ := Environment.allows_cons_iff.mp allowed
  obtain ⟨s₂, ⟨w₁, t₁, before, -, kept⟩, allowed₂⟩ := Environment.allows_cons_iff.mp allowed₁
  obtain ⟨s₃, ⟨w₂, t₂, behind, refused, -⟩, allowed₃⟩ := Environment.allows_cons_iff.mp allowed₂
  obtain ⟨s₄, ⟨w₃, t₃, last, rfl⟩, ended⟩ := Environment.allows_cons_iff.mp allowed₃
  obtain rfl := Environment.allows_nil_iff.mp ended
  have isRefused : Refused (x :: refusal eval thread ticket e) := ⟨e, by simp [refusal]⟩
  constructor
  case unregistered => simp [Waiters.cancel]
  case refused => exact fun _ => isRefused
  case queued_iff =>
    intro keeps stable
    refine ⟨fun _ => isRefused, fun _ => ?_⟩
    have accepted : queued s₁.2 eval := queued_of_accepted queues begun accepted
    have registered : queued s₂.2 eval := kept ▸ stable _ _ before accepted
    have resumed : queued s₃.2 eval := keeps _ _ _ _ refused (stable _ _ behind registered)
    have cancelled : queued t₃ eval := stable _ _ last resumed
    exact cancelled

/-- Nobody waits for the call any more, and the evaluation is called off. -/
theorem leaves_expiry (queues : Queues target queued)
    (unshared : Stable others fun s => s.1.pending.get? eval = none)
    (accepted : x.accepted? = some eval)
    (allowed : (around target others).Allows s (x :: expiry eval thread ticket limit (.ok ())) s') :
    Leaves target queued others eval (x :: expiry eval thread ticket limit (.ok ())) s' := by
  obtain ⟨s₁, -, allowed₁⟩ := Environment.allows_cons_iff.mp allowed
  obtain ⟨s₂, -, allowed₂⟩ := Environment.allows_cons_iff.mp allowed₁
  obtain ⟨s₃, -, allowed₃⟩ := Environment.allows_cons_iff.mp allowed₂
  obtain ⟨s₄, -, allowed₄⟩ := Environment.allows_cons_iff.mp allowed₃
  obtain ⟨s₅, ⟨w, t, -, rfl⟩, allowed₅⟩ := Environment.allows_cons_iff.mp allowed₄
  obtain ⟨s₆, ⟨w', t', last, aborted, same⟩, ended⟩ := Environment.allows_cons_iff.mp allowed₅
  obtain rfl := Environment.allows_nil_iff.mp ended
  have gone : ¬ queued s'.2 eval := queues.aborted aborted
  have resumed : ¬ Refused (x :: expiry eval thread ticket limit (.ok ())) := by
    rw [refused_cons_iff accepted]
    simp [Refused, expiry]
  constructor
  case unregistered =>
    rw [same]
    exact unshared _ _ last (by simp [Waiters.cancel])
  case refused => exact fun still => absurd still gone
  case queued_iff => exact fun _ _ => iff_of_false gone resumed

/-- A remote call that the target accepted and that failed, because the target refused to go on or
because the time was up, is not waited for any more. Unless the target refused to go on, the
evaluation is not queued any more either. -/
theorem leaves_of_failed {p : Eval α} {e : EvalError} (remote : Remote limit thread p)
    (queues : Queues target queued)
    (unshared : Stable others fun s => s.1.pending.get? eval = none)
    (played : p.run.Plays es (.error e)) (allowed : (around target others).Allows s es s')
    (accepted : ∃ x ∈ es, x.accepted? = some eval) (failed : Refused es ∨ Expired es)
    (aborts : ∀ reply, ⟨.native (.abortEval eval), reply⟩ ∈ es → reply = .ok ()) :
    Leaves target queued others eval es s' := by
  obtain ⟨x, isElement, accepted⟩ := accepted
  obtain ⟨rest, result, rfl, course⟩ := remote.course played isElement accepted
  cases course with
  | refused ticket e => exact leaves_refusal queues accepted allowed
  | told ticket d =>
      rw [refused_cons_iff accepted, expired_cons_iff accepted] at failed
      simp [Refused, Expired] at failed
  | expired ticket reply =>
      obtain rfl := aborts reply (by simp [expiry])
      exact leaves_expiry queues unshared accepted allowed

end RemoteCall

/-! ## Scripted processes -/

/-- Whoever answers calls, as a target. -/
def Backend.target (backend : Backend τ) : Environment nativeEffect τ :=
  fun t x t' => (backend.answer x.op t).1 = x.reply ∧ (backend.answer x.op t).2.2 = t'

namespace Simulation.Script

def Queued (s : Script) (eval : EvalId) : Prop := eval ∈ s.begun.map (·.1)

/-- A call that does not fail is reacted to. -/
theorem react_of_answer (s : Script) (call : NativeCall) {a : call.Answer}
    (other : call ≠ .continueProcess) (answered : (answer call s).1 = .ok a) :
    ∃ s₀, (react call).run s₀ = (.ok a, (answer call s).2.2) := by
  unfold answer at answered ⊢
  dsimp only at answered ⊢
  split at answered
  case h_1 => cases answered
  case h_2 =>
    cases call with
    | continueProcess => exact absurd rfl other
    | _ => exact ⟨_, Prod.ext answered rfl⟩

/-- A reaction that succeeds leaves its answer in the queue. -/
def Queueing (r : Reaction Script EvalId) : Prop :=
  ∀ s eval s', r.run s = (.ok eval, s') → s'.Queued eval

theorem Queueing.bind {β : Type} {r : Reaction Script β} {f : β → Reaction Script EvalId}
    (last : ∀ b, Queueing (f b)) : Queueing (r >>= f) := by
  intro s eval s' ran
  have continued : ExceptT.bindCont f (r.run s).1 (r.run s).2 = (.ok eval, s') := ran
  cases first : (r.run s).1 with
  | ok b =>
      rw [first] at continued
      exact last b _ eval s' continued
  | error e =>
      rw [first] at continued
      cases continued

theorem queueing_begin (thread : ThreadId) (work : Begun) : Queueing (begin thread work) := by
  intro s eval s' begun
  obtain ⟨same, rfl⟩ := Prod.mk.inj begun
  obtain rfl := Except.ok.inj same
  simp [Queued]

theorem queueing_beginCall (thread : ThreadId) (method : MethodRef) (types : List TypeRef)
    (arguments : List RemoteValue) :
    Queueing (react (.beginCall thread method types arguments)) := by
  refine .bind fun s => .bind fun _ => ?_
  split
  · intro s eval s' refused
    cases refused
  · exact queueing_begin thread _

theorem queues : RemoteCall.Queues backend.target Queued := by
  constructor
  case begun =>
    rintro s ⟨call, reply⟩ s' eval ⟨answered, rfl⟩ accepted
    cases call with
    | beginCall thread method types arguments =>
        cases reply with
        | error e => cases accepted
        | ok other =>
            obtain rfl := Option.some.inj accepted
            obtain ⟨s₀, reacted⟩ :=
              react_of_answer s (.beginCall thread method types arguments) nofun answered
            exact queueing_beginCall thread method types arguments s₀ _ _ reacted
    | beginString thread text =>
        cases reply with
        | error e => cases accepted
        | ok other =>
            obtain rfl := Option.some.inj accepted
            obtain ⟨s₀, reacted⟩ := react_of_answer s (.beginString thread text) nofun answered
            exact queueing_begin thread _ s₀ _ _ reacted
    | _ => cases accepted
  case aborted =>
    rintro s s' eval ⟨answered, rfl⟩
    obtain ⟨s₀, reacted⟩ := react_of_answer s (.abortEval eval) nofun answered
    obtain ⟨-, same⟩ := Prod.mk.inj reacted
    rw [Queued, backend, ← same]
    simp

theorem keeps : RemoteCall.Keeps backend.target Queued := by
  rintro s e s' eval ⟨answered, rfl⟩ queued
  simp only [backend, answer] at answered ⊢
  split at answered
  case h_1 detail failing => exact queued
  case h_2 => cases answered

end Simulation.Script

namespace RemoteCall

open Simulation

/-- Nobody else does anything in between. -/
def undisturbed (s s' : Waiters × τ) : Prop := s' = s

theorem stable_undisturbed (holds : Waiters × τ → Prop) : Stable undisturbed holds := by
  rintro s s' rfl now
  exact now

/-- Replies to a call that nobody disturbs. What is raised waits to be routed. -/
def unrouted (backend : Backend τ) : Waiters × τ → (op : EvalOp) → op.Reply × (Waiters × τ)
  | (w, t), .native call => ((backend.answer call t).1, w, (backend.answer call t).2.2)
  | (w, t), .register eval thread => ((w.register eval thread).1, (w.register eval thread).2, t)
  | (w, t), .cancel eval => ((), w.cancel eval, t)
  | (w, t), .wait ticket _ =>
    match w.take? ticket with
    | some (d, w) => (some d, w, t)
    | none => (none, w, t)

theorem around_unrouted (backend : Backend τ) (s : Waiters × τ) (op : EvalOp) :
    around backend.target undisturbed s ⟨op, (unrouted backend s op).1⟩
      (unrouted backend s op).2 := by
  obtain ⟨w, t⟩ := s
  cases op with
  | native call => exact ⟨w, t, rfl, ⟨rfl, rfl⟩, rfl⟩
  | register eval thread => exact ⟨w, t, rfl, rfl, rfl⟩
  | cancel eval => exact ⟨w, t, rfl, rfl⟩
  | wait ticket limit =>
      unfold unrouted
      dsimp only
      split
      case h_1 d w' taken => exact ⟨w, t, rfl, taken, rfl⟩
      case h_2 => rfl

/-- A process that does not go on. -/
def refusing : Script := { Script.empty with failing := .obj [("continue_process", .str "boom")] }

/-- A string is to be made in it. -/
def refusedString :
    List (Exchange evalEffect) × (Waiters × Script) × Except EvalError RemoteValue :=
  (newString (some 5000) 1 "x").run.simulate (unrouted Script.backend) (.empty, refusing)

theorem refusedString_eq :
    refusedString.1 = ⟨.native (.beginString 1 "x"), .ok ⟨1⟩⟩ ::
        refusal ⟨1⟩ 1 0 (.protocol "boom") ∧
      refusedString.2.2 = .error (.native (.protocol "boom")) :=
  ⟨by rfl, by rfl⟩

theorem plays_refusedString :
    (newString (some 5000) 1 "x").run.Plays refusedString.1
      (.error (.native (.protocol "boom"))) := by
  rw [← refusedString_eq.2]
  exact Program.plays_simulate _ _ _

theorem allows_refusedString :
    (around Script.backend.target undisturbed).Allows (.empty, refusing) refusedString.1
      refusedString.2.1 :=
  Program.allows_simulate (around_unrouted Script.backend) _ _

theorem refused_refusedString :
    (∃ x ∈ refusedString.1, x.accepted? = some ⟨1⟩) ∧ Refused refusedString.1 ∧
      ∀ reply, ⟨.native (.abortEval ⟨1⟩), reply⟩ ∈ refusedString.1 → reply = .ok () := by
  rw [refusedString_eq.1]
  refine ⟨⟨_, List.mem_cons_self, rfl⟩, ⟨.protocol "boom", by simp [refusal]⟩, ?_⟩
  simp [refusal]

theorem leaves_refusedString :
    Remote (some 5000) 1 (newString (some 5000) 1 "x") ∧
      Queues Script.backend.target Script.Queued ∧ Keeps Script.backend.target Script.Queued ∧
      Leaves Script.backend.target Script.Queued undisturbed ⟨1⟩ refusedString.1
        refusedString.2.1 := by
  obtain ⟨accepted, refused, aborts⟩ := refused_refusedString
  exact ⟨.newString "x", Script.queues, Script.keeps,
    leaves_of_failed (.newString "x") Script.queues (stable_undisturbed _) plays_refusedString
      allows_refusedString accepted (.inl refused) aborts⟩

/-- The next resume runs the evaluation of a call that has failed. -/
theorem runs_refusedString :
    refusedString.2.1.2.begun.map (·.1) = [⟨1⟩] ∧
      ∃ value, (Script.answer .continueProcess { refusedString.2.1.2 with failing := .null }).2.1 =
        [.evalComplete 1 ⟨1⟩ (some value)] :=
  ⟨by rfl, _, by rfl⟩

/-- So a failed call may leave its evaluation behind. -/
theorem not_called_off : ¬ ∀ {es s s'} {p : Eval RemoteValue} {limit thread eval e},
    Remote limit thread p → p.run.Plays es (.error e) →
    (around Script.backend.target undisturbed).Allows s es s' →
    (∃ x ∈ es, x.accepted? = some eval) → Refused es ∨ Expired es →
    (∀ reply, ⟨.native (.abortEval eval), reply⟩ ∈ es → reply = .ok ()) →
    s'.1.pending.get? eval = none ∧ ¬ s'.2.Queued eval := by
  intro holds
  obtain ⟨accepted, refused, aborts⟩ := refused_refusedString
  have forgotten := holds (.newString "x") plays_refusedString allows_refusedString accepted
    (.inl refused) aborts
  have queued : refusedString.2.1.2.Queued ⟨1⟩ := by
    rw [Script.Queued, runs_refusedString.1]
    exact List.mem_singleton_self _
  exact forgotten.2 queued

end RemoteCall

end ManagedDebugger
