import ManagedDebugger.Proofs.Program.Transcript
import ManagedDebugger.Session.Work

/-!
# Tasks one at a time

A task that nothing else runs beside finds the shared state as it left it itself. What the target
replies is restricted by a property of exchanges, for instance that every call succeeds. Each
operation of a task has a rule here that says how a wanted end of the whole task follows from what
is known before the operation.
-/

namespace ManagedDebugger

variable {σ ε α β : Type}

/-- A call to the target, as part of an evaluation. -/
def Exchange.ofNative (x : Exchange nativeEffect) : Exchange evalEffect := ⟨.native x.op, x.reply⟩

/-- What an evaluation does, as part of a task. -/
def Exchange.ofEval (x : Exchange evalEffect) : Exchange (workEffect σ ε) := ⟨.eval x.op, x.reply⟩

/-- No call to the target fails. -/
def EvalOp.Succeeds : Exchange evalEffect → Prop
  | ⟨.native _, reply⟩ => ∃ answer, reply = .ok answer
  | _ => True

namespace Program

theorem plays_ask_iff {E : Effect} {op : E.Op} {es : List (Exchange E)} {reply : E.Reply op} :
    (ask op).Plays es reply ↔ es = [⟨op, reply⟩] := by
  constructor
  · intro played
    obtain ⟨reply, rest, rfl, ended⟩ := plays_perform_iff.mp played
    obtain ⟨rfl, rfl⟩ := plays_done_iff.mp ended
    rfl
  · intro same
    subst same
    exact .perform (.done reply)

theorem plays_evaluating_iff {p : Program nativeEffect α} {es : List (Exchange evalEffect)}
    {a : α} :
    p.evaluating.Plays es a ↔ ∃ calls, p.Plays calls a ∧ es = calls.map .ofNative :=
  plays_translate_iff fun _ _ _ => plays_ask_iff

theorem plays_working_iff {p : Program evalEffect α} {es : List (Exchange (workEffect σ ε))}
    {a : α} :
    p.working.Plays es a ↔ ∃ ops, p.Plays ops a ∧ es = ops.map .ofEval :=
  plays_translate_iff fun _ _ _ => plays_ask_iff

end Program

namespace Job

theorem plays_update_bind_iff {g : σ → α × σ} {f : α → Job σ ε β}
    {es : List (Exchange (workEffect σ ε))} {b : β} :
    (update g >>= f).Plays es b ↔ ∃ before rest,
      es = ⟨.update fun s => (g s).2, before⟩ :: rest ∧ (f (g before).1).Plays rest b :=
  Program.plays_perform_iff

theorem plays_update_iff {g : σ → α × σ} {es : List (Exchange (workEffect σ ε))} {a : α} :
    (update g).Plays es a ↔ ∃ before,
      es = [⟨.update fun s => (g s).2, before⟩] ∧ a = (g before).1 := by
  refine Program.plays_perform_iff.trans ⟨?_, ?_⟩
  · rintro ⟨before, none, rfl, ended⟩
    obtain ⟨rfl, rfl⟩ := Program.plays_done_iff.mp ended
    exact ⟨before, rfl, rfl⟩
  · rintro ⟨before, rfl, rfl⟩
    exact ⟨before, [], rfl, .done _⟩

theorem plays_locked_iff {lock : Lock} {p : Job σ ε α} {es : List (Exchange (workEffect σ ε))}
    {a : α} :
    (locked lock p).Plays es a ↔ ∃ inside, p.Plays inside a ∧
      es = ⟨.acquire lock, ()⟩ :: (inside ++ [⟨.release lock, ()⟩]) := by
  constructor
  · intro played
    obtain ⟨⟨⟩, rest, rfl, continued⟩ := Program.plays_perform_iff.mp played
    have continued : (p.bind fun a => Program.ask (E := workEffect σ ε) (.release lock) >>= fun _ =>
      pure a).Plays rest a := continued
    obtain ⟨inside, a', last, worked, released, rfl⟩ := Program.plays_bind_iff.mp continued
    obtain ⟨⟨⟩, none, rfl, ended⟩ := Program.plays_perform_iff.mp released
    obtain ⟨rfl, rfl⟩ := Program.plays_done_iff.mp ended
    exact ⟨inside, worked, rfl⟩
  · rintro ⟨inside, worked, rfl⟩
    exact .perform (worked.bind (.perform (.done a)))

end Job

/-- Replies with a property, from nobody that has a state. -/
def Environment.ofReplies {E : Effect} (possible : Exchange E → Prop) : Environment E Unit :=
  fun _ x _ => possible x

theorem Environment.allows_ofReplies_iff {E : Effect} {possible : Exchange E → Prop} {s s' : Unit}
    {es : List (Exchange E)} :
    (ofReplies possible).Allows s es s' ↔ ∀ x ∈ es, possible x := by
  induction es generalizing s with
  | nil => simp
  | cons x rest inductionHypothesis =>
      simp [allows_cons_iff, inductionHypothesis, ofReplies]

namespace Job

/-- The surroundings of a task that runs alone. -/
def alone (possible : Exchange evalEffect → Prop) : Environment (workEffect σ ε) σ
  | s, ⟨.update f, before⟩, s' => before = s ∧ s' = f s
  | s, ⟨.eval op, reply⟩, s' => possible ⟨op, reply⟩ ∧ s' = s
  | s, _, s' => s' = s

variable {possible : Exchange evalEffect → Prop} {s : σ}

theorem update_bind {g : σ → α × σ} {f : α → Job σ ε β}
    {Q : List (Exchange (workEffect σ ε)) → σ → β → Prop}
    (next : (f (g s).1).Ensures (alone possible) (g s).2 fun es =>
      Q (⟨.update fun s => (g s).2, s⟩ :: es)) :
    (update g >>= f).Ensures (alone possible) s Q := by
  refine Program.ensures_perform_iff.mpr ?_
  intro before s' holds
  obtain ⟨rfl, rfl⟩ := holds
  exact next

theorem ensures_update {g : σ → α × σ}
    {Q : List (Exchange (workEffect σ ε)) → σ → α → Prop}
    (holds : Q [⟨.update fun s => (g s).2, s⟩] (g s).2 (g s).1) :
    (update g).Ensures (alone possible) s Q := by
  rw [← Program.bind_done (update g)]
  exact update_bind (Program.ensures_done_iff.mpr holds)

theorem emit_bind {event : ε} {f : Unit → Job σ ε β}
    {Q : List (Exchange (workEffect σ ε)) → σ → β → Prop}
    (next : (f ()).Ensures (alone possible) s fun es => Q (⟨.emit event, ()⟩ :: es)) :
    (emit event >>= f).Ensures (alone possible) s Q := by
  refine Program.ensures_perform_iff.mpr ?_
  intro reply s' same
  cases reply
  subst same
  exact next

theorem ensures_emit {event : ε}
    {Q : List (Exchange (workEffect σ ε)) → σ → Unit → Prop}
    (holds : Q [⟨.emit event, ()⟩] s ()) :
    (emit event).Ensures (alone possible) s Q := by
  rw [← Program.bind_done (emit event)]
  exact emit_bind (Program.ensures_done_iff.mpr holds)

theorem allows_ofEval {ops : List (Exchange evalEffect)} {s' : σ}
    (allowed : (alone possible : Environment (workEffect σ ε) σ).Allows s (ops.map .ofEval) s') :
    (∀ x ∈ ops, possible x) ∧ s' = s := by
  induction ops with
  | nil => simpa using allowed
  | cons x rest inductionHypothesis =>
      obtain ⟨s₁, ⟨here, rfl⟩, following⟩ := Environment.allows_cons_iff.mp allowed
      obtain ⟨others, rfl⟩ := inductionHypothesis following
      exact ⟨List.forall_mem_cons.mpr ⟨here, others⟩, rfl⟩

theorem ensures_working {p : Program evalEffect α}
    {Q : List (Exchange (workEffect σ ε)) → σ → α → Prop}
    (evaluated : p.Ensures (.ofReplies possible) () fun ops _ a => Q (ops.map .ofEval) s a) :
    p.working.Ensures (alone possible) s Q := by
  intro es s' a working allowed
  obtain ⟨ops, played, rfl⟩ := Program.plays_working_iff.mp working
  obtain ⟨replied, rfl⟩ := allows_ofEval allowed
  exact evaluated ops () a played (Environment.allows_ofReplies_iff.mpr replied)

theorem ensures_locked {lock : Lock} {p : Job σ ε α}
    {Q : List (Exchange (workEffect σ ε)) → σ → α → Prop}
    (inside : p.Ensures (alone possible) s fun es =>
      Q (⟨.acquire lock, ()⟩ :: (es ++ [⟨.release lock, ()⟩]))) :
    (locked lock p).Ensures (alone possible) s Q := by
  refine Program.ensures_perform_iff.mpr ?_
  intro reply s' same
  cases reply
  subst same
  refine inside.bind fun es s' a holds => ?_
  refine Program.ensures_perform_iff.mpr ?_
  intro reply s'' same
  cases reply
  subst same
  exact Program.ensures_done_iff.mpr holds

end Job

namespace Work

variable {possible : Exchange evalEffect → Prop} {s : σ}

theorem ensures_ofJob {p : Job σ ε α}
    {Q : List (Exchange (workEffect σ ε)) → σ → Except EngineError α → Prop}
    (done : p.Ensures (Job.alone possible) s fun es s' a => Q es s' (.ok a)) :
    (ofJob p).run.Ensures (Job.alone possible) s Q := by
  refine Program.Ensures.bind done fun es s' a holds => Program.ensures_done_iff.mpr ?_
  rw [List.append_nil]
  exact holds

theorem ofJob_bind {p : Job σ ε α} {f : α → Work σ ε β}
    {P : List (Exchange (workEffect σ ε)) → σ → α → Prop}
    {Q : List (Exchange (workEffect σ ε)) → σ → Except EngineError β → Prop}
    (first : p.Ensures (Job.alone possible) s P)
    (second : ∀ es s' a, P es s' a →
      (f a).run.Ensures (Job.alone possible) s' fun more => Q (es ++ more)) :
    (ofJob p >>= f).run.Ensures (Job.alone possible) s Q := by
  refine Program.Ensures.run_bind (P := fun es s' r => ∃ a, r = .ok a ∧ P es s' a)
    (ensures_ofJob (first.mono fun _ _ a holds => ⟨a, rfl, holds⟩)) ?_ ?_
  · intro es s' b given
    obtain ⟨a, same, holds⟩ := given
    obtain rfl := Except.ok.inj same
    exact second es s' b holds
  · intro es s' e holds
    obtain ⟨a, failed, -⟩ := holds
    cases failed

theorem plays_ofJob_bind_iff {p : Job σ ε α} {f : α → Work σ ε β}
    {es : List (Exchange (workEffect σ ε))} {r : Except EngineError β} :
    (ofJob p >>= f).run.Plays es r ↔
      ∃ first a second, p.Plays first a ∧ (f a).run.Plays second r ∧ es = first ++ second := by
  refine Program.plays_bind_iff.trans ⟨?_, ?_⟩
  · rintro ⟨_, result, second, lifted, continued, rfl⟩
    obtain ⟨first, a, none, played, ended, rfl⟩ := Program.plays_bind_iff.mp lifted
    obtain ⟨rfl, rfl⟩ := Program.plays_done_iff.mp ended
    exact ⟨first, a, second, played, continued, by rw [List.append_nil]⟩
  · rintro ⟨first, a, second, played, continued, rfl⟩
    have ended : (pure (Except.ok a) : Job σ ε (Except EngineError α)).Plays [] (.ok a) := .done _
    exact ⟨first ++ [], .ok a, second, played.bind ended, continued, by rw [List.append_nil]⟩

end Work

/-- The operations of the evaluations in a task. -/
def evalOps (es : List (Exchange (workEffect σ ε))) : List EvalOp :=
  es.filterMap fun x => match x.op with
    | .eval op => some op
    | _ => none

/-- What a task told the front end. -/
def emitted (es : List (Exchange (workEffect σ ε))) : List ε :=
  es.filterMap fun x => match x.op with
    | .emit event => some event
    | _ => none

@[simp]
theorem evalOps_append (first second : List (Exchange (workEffect σ ε))) :
    evalOps (first ++ second) = evalOps first ++ evalOps second :=
  List.filterMap_append

@[simp]
theorem emitted_append (first second : List (Exchange (workEffect σ ε))) :
    emitted (first ++ second) = emitted first ++ emitted second :=
  List.filterMap_append

@[simp]
theorem evalOps_map_ofEval (ops : List (Exchange evalEffect)) :
    evalOps (ops.map .ofEval : List (Exchange (workEffect σ ε))) = ops.map (·.op) := by
  simp [evalOps, List.filterMap_map, Function.comp_def, Exchange.ofEval]

@[simp]
theorem emitted_map_ofEval (ops : List (Exchange evalEffect)) :
    emitted (ops.map .ofEval : List (Exchange (workEffect σ ε))) = [] := by
  simp [emitted, List.filterMap_map, Function.comp_def, Exchange.ofEval]

end ManagedDebugger
