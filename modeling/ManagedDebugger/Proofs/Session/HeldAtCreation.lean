import ManagedDebugger.Proofs.Session.Confined
import ManagedDebugger.Proofs.Session.FailedRequests

/-!
# A process that is held at its creation

A process that is created before the front end has sent its breakpoints is left as it is, and the
end of the configuration lets it go on. Nothing else looks at whether a process is held. So until
the configuration ends, each notification that neither stops the session nor is held itself lets the
process go on, and then it goes on once more.
-/

namespace ManagedDebugger

open Job

variable {possible : Exchange evalEffect → Prop}

namespace Session

/-- What is known of the start of the process is as before. -/
def KeepsStart (_ : Transcript) (s s' : SessionState) : Prop :=
  s'.process.configured = s.process.configured ∧
    s'.process.heldAtCreate = s.process.heldAtCreate

theorem bound_keepsStart : Bound KeepsStart where
  nil := fun _ => ⟨rfl, rfl⟩
  append := fun first second => ⟨second.1.trans first.1, second.2.trans first.2⟩
  told := fun _ _ => ⟨rfl, rfl⟩
  acquired := fun _ _ => ⟨rfl, rfl⟩
  released := fun _ _ => ⟨rfl, rfl⟩
  updated := fun _ _ inessential => ⟨inessential.configured, inessential.heldAtCreate⟩
  evaluated := fun _ _ _ => ⟨rfl, rfl⟩

section Start

variable {α : Type}

theorem keepsStart_onStep (p : StepContext → Stepping α) :
    Confined possible KeepsStart (onStep p) := by
  refine fun s => (plays_onStep p s).mono ?_
  rintro es s' r ⟨-, state, -⟩
  rw [state]
  exact ⟨rfl, rfl⟩

theorem keepsStart_stepping (p : StepContext → Stepping α) :
    Confined possible KeepsStart (ExceptT.mk (onStep p) : SessionWork α).run :=
  keepsStart_onStep p

theorem keepsStart_cancelStep : Confined possible KeepsStart cancelStep :=
  .bind bound_keepsStart (keepsStart_onStep _) fun _ => .pure bound_keepsStart _

theorem keepsStart_onBreakpoints
    (p : SymbolTable → BreakpointRegistry → Program nativeEffect (α × BreakpointRegistry)) :
    Confined possible KeepsStart (onBreakpoints p) := by
  refine fun s => (plays_onBreakpoints p s).mono ?_
  rintro es s' a ⟨-, state, -⟩
  rw [state]
  exact ⟨rfl, rfl⟩

/-- Whatever is asked of the target. -/
theorem keepsStart_native (c : NativeCall) :
    Confined possible KeepsStart (Work.native c : SessionWork c.Answer).run := by
  refine .bind bound_keepsStart (fun s => ?_) fun _ => .pure bound_keepsStart _
  refine (ensures_evaluating s).mono ?_
  rintro es _ a ⟨-, rfl, -⟩
  exact ⟨rfl, rfl⟩

theorem keepsStart_breakAtEntry (module : ModuleId) :
    Confined possible KeepsStart (breakAtEntry module).run := by
  refine .run_bind bound_keepsStart (.ofJob bound_keepsStart (confined_get bound_keepsStart)) ?_
  intro s
  split
  · split
    · exact .pure bound_keepsStart _
    · refine .run_bind bound_keepsStart (keepsStart_native _) fun b => .ofJob bound_keepsStart ?_
      exact fun s => ensures_update ⟨rfl, rfl⟩
  · exact .pure bound_keepsStart _

theorem keepsStart_onUserBreakpoint (thread : ThreadId) (hit : NativeBreakpointId) :
    Confined possible KeepsStart (onUserBreakpoint thread hit) := by
  refine .bind bound_keepsStart (keepsStart_onBreakpoints _) fun found => ?_
  cases found with
  | none => exact .pure bound_keepsStart _
  | some b =>
      refine .bind bound_keepsStart (confined_holds bound_keepsStart thread _) fun held => ?_
      cases held with
      | false => exact .pure bound_keepsStart _
      | true =>
          refine .bind bound_keepsStart (keepsStart_onBreakpoints _) fun met => ?_
          cases met with
          | false => exact .pure bound_keepsStart _
          | true =>
              exact .bind bound_keepsStart keepsStart_cancelStep fun _ => .pure bound_keepsStart _

theorem keepsStart_onBreakpointHit (thread : ThreadId) (hit : NativeBreakpointId) :
    Confined possible KeepsStart (onBreakpointHit thread hit).run := by
  refine .run_bind bound_keepsStart (.ofJob bound_keepsStart ?_) fun taken => ?_
  · refine fun s => ensures_update ?_
    dsimp only
    split <;> exact ⟨rfl, rfl⟩
  · cases taken with
    | true =>
        apply Confined.run_bind bound_keepsStart (keepsStart_native _)
        exact fun _ => .pure bound_keepsStart _
    | false =>
        refine .run_bind bound_keepsStart
          (keepsStart_stepping fun ctx => Step.onBreakpoint ctx thread hit) fun outcome => ?_
        cases outcome with
        | none => exact .ofJob bound_keepsStart (keepsStart_onUserBreakpoint thread hit)
        | some outcome => exact .pure bound_keepsStart _

end Start

/-- Only the creation of the process and the end of the configuration change what is known of it. -/
theorem keepsStart_remains {input : Input} (other : input ≠ .asked .configurationDone)
    (created : ∀ pid, input ≠ .notified (.processCreated pid)) :
    input.Remains possible KeepsStart := by
  cases input with
  | notified event =>
      cases event with
      | processCreated pid => exact absurd rfl (created pid)
      | moduleLoaded module =>
          exact confined_onModuleLoaded bound_keepsStart module (keepsStart_onBreakpoints _)
            (keepsStart_breakAtEntry _)
      | moduleUnloaded module =>
          exact confined_onModuleUnloaded bound_keepsStart module (keepsStart_onBreakpoints _)
      | breakpointHit thread b => exact keepsStart_onBreakpointHit thread b
      | stepComplete thread reason =>
          exact .run_bind bound_keepsStart
            (keepsStart_stepping fun ctx => Step.onStepComplete ctx thread reason)
            fun _ => .pure bound_keepsStart _
      | _ => trivial
  | asked request =>
      cases request with
      | configurationDone => exact absurd rfl other
      | setBreakpoints file requests =>
          exact confined_setBreakpoints bound_keepsStart file requests fun _ =>
            keepsStart_onBreakpoints _
      | step kind thread => exact keepsStart_onStep _
      | _ => trivial
  | _ => trivial

/-- The process goes on at its creation if the configuration is over, and is held otherwise. -/
structure Creation (es : Transcript) (s s' : SessionState) : Prop where
  configured : s'.process.configured = s.process.configured
  heldAtCreate : s'.process.heldAtCreate = (s.process.heldAtCreate || !s.process.configured)
  answered : evalOps es = if s.process.configured then [.native .continueProcess] else []

theorem ensures_created (pid : UInt32) (s : SessionState) :
    (handle (.processCreated pid)).Ensures (alone possible) s fun es s' _ => Creation es s s' := by
  refine Program.Ensures.bind (P := fun es s' r => evalOps es = [] ∧
    r = .ok (if s.process.configured then .resume else .hold) ∧
    s'.process.configured = s.process.configured ∧
    s'.process.heldAtCreate = (s.process.heldAtCreate || !s.process.configured)) ?_ ?_
  · exact Work.ensures_ofJob (update_bind (Program.ensures_done_iff.mpr ⟨rfl, rfl, rfl, rfl⟩))
  · rintro first s' _ ⟨nothing, rfl, configured, held⟩
    by_cases ended : s.process.configured = true
    · simp only [if_pos ended]
      refine (ensures_applyResume s').mono ?_
      rintro second _ _ ⟨ops, -, rfl⟩
      exact ⟨configured, held, by simp [ended, nothing, ops]⟩
    · simp only [if_neg ended]
      exact Program.ensures_done_iff.mpr ⟨configured, held, by simp [ended, nothing]⟩

/-- The end of the configuration lets the process go on if it is held. -/
theorem ensures_done (s : SessionState) :
    configurationDone.run.Ensures (alone possible) s fun es s' _ =>
      s'.process.configured = true ∧
      evalOps es = if s.process.heldAtCreate then [.native .continueProcess] else [] := by
  refine Work.ofJob_bind (P := fun es s' held => evalOps es = [] ∧
    s'.process.configured = true ∧ held = s.process.heldAtCreate)
    (ensures_update ⟨rfl, rfl, rfl⟩) ?_
  rintro first s' _ ⟨nothing, configured, rfl⟩
  by_cases held : s.process.heldAtCreate = true
  · simp only [if_pos held]
    refine Program.ensures_perform_iff.mpr ?_
    rintro reply _ ⟨-, rfl⟩
    refine Program.ensures_done_iff.mpr ⟨configured, ?_⟩
    rw [evalOps_append, nothing]
    rfl
  · simp only [if_neg held]
    refine Program.ensures_done_iff.mpr ⟨configured, ?_⟩
    simpa using nothing

/-- Wherever it starts, the task does not resume the target. -/
def Unresuming {α : Type} (possible : Exchange evalEffect → Prop) (p : SessionJob α) : Prop :=
  ∀ s, p.Ensures (alone possible) s fun es _ _ => Resumes 0 (evalOps es)

namespace Unresuming

variable {α β : Type}

theorem ofLeaves {p : SessionJob α} (leaves : Unobtrusive possible p) : Unresuming possible p :=
  fun s => (leaves s).mono fun _ _ _ left => left.resumes

theorem bind {p : SessionJob α} {f : α → SessionJob β} (first : Unresuming possible p)
    (second : ∀ a, Unresuming possible (f a)) : Unresuming possible (p >>= f) := by
  refine fun s => (first s).bind fun es s' a left => (second a s').mono fun more _ _ right => ?_
  rw [evalOps_append]
  exact left.append_none right

theorem run_bind {p : SessionWork α} {f : α → SessionWork β} (first : Unresuming possible p.run)
    (second : ∀ a, Unresuming possible (f a).run) : Unresuming possible (p >>= f).run := by
  refine first.bind fun result => ?_
  cases result with
  | ok a => exact second a
  | error e => exact .ofLeaves (.pure _)

theorem cancelStep : Unresuming possible cancelStep :=
  fun s => (ensures_cancelStep s).mono fun _ _ _ cancelled => cancelled.1.resumes

theorem clearHandles : Unresuming possible clearHandles := fun _ => ensures_update .nil

theorem terminate : Unresuming possible terminate.run := by
  refine .run_bind (.ofLeaves unobtrusive_requireProcess) fun _ => ?_
  refine .run_bind (.bind cancelStep fun _ => .ofLeaves (.pure _)) fun _ => ?_
  exact .ofLeaves (unobtrusive_call nofun)

theorem disconnect (kill : Bool) : Unresuming possible (disconnect kill) := by
  refine .bind (.ofLeaves unobtrusive_isLive) fun live => ?_
  cases live with
  | false => exact .ofLeaves (.pure _)
  | true =>
      refine .bind cancelStep fun _ => .bind clearHandles fun _ => .ofLeaves ?_
      refine .bind (unobtrusive_native (.ask ?_)) fun _ => .pure _
      cases kill <;> nofun

end Unresuming

namespace Turn

variable {t : Turn}

/-- A turn that is not meant to let the target go on does so exactly if nothing holds it back. -/
theorem Happens.ownResumes_unasked (happens : t.Happens possible) (kept : ¬ t.input.GoesOn) :
    (t.LetsGo → t.ownResumes = 1) ∧ (¬ t.LetsGo → t.ownResumes = 0) := by
  by_cases ends : t.input.EndsStop
  · have stays (unresuming : Unresuming possible t.input.task) : t.ownResumes = 0 :=
      Resumes.count (happens.ensured (unresuming t.before))
    obtain ⟨input, before, transcript, answer, after⟩ := t
    cases input with
    | asked request =>
        cases request with
        | terminate =>
            refine ⟨False.elim, fun _ => stays ?_⟩
            exact .run_bind .terminate fun _ => .ofLeaves (.pure _)
        | continue_ => exact absurd trivial kept
        | step kind thread => exact absurd trivial kept
        | _ => exact ends.elim
    | disconnect kill =>
        refine ⟨False.elim, fun _ => stays ?_⟩
        exact .bind (.disconnect kill) fun _ => .ofLeaves (.pure _)
    | _ => exact ends.elim
  · exact ⟨happens.ownResumes_of_letsGo ends, happens.ownResumes_of_not_letsGo ends⟩

theorem Happens.creation (happens : t.Happens possible) {pid : UInt32}
    (creates : t.input = .notified (.processCreated pid)) :
    Creation t.transcript t.before t.after := by
  refine happens.ensured_of (Q := fun es s' _ => Creation es t.before s') creates ?_
  exact Program.ensures_map_iff.mpr (ensures_created pid t.before)

theorem Happens.configured (happens : t.Happens possible)
    (ends : t.input = .asked .configurationDone) :
    t.after.process.configured = true ∧ evalOps t.transcript =
      if t.before.process.heldAtCreate then [.native .continueProcess] else [] := by
  exact happens.ensured_of (Q := fun es s' _ => s'.process.configured = true ∧
    evalOps es = if t.before.process.heldAtCreate then [.native .continueProcess] else []) ends
    (ensures_answered (ensures_done t.before))

/-- Until the configuration is over, a process that is held stays so. -/
theorem Happens.keepsHold (happens : t.Happens possible)
    (other : t.input ≠ .asked .configurationDone) :
    t.after.process.configured = t.before.process.configured ∧
      (t.before.process.heldAtCreate = true → t.after.process.heldAtCreate = true) := by
  by_cases created : ∃ pid, t.input = .notified (.processCreated pid)
  · obtain ⟨pid, creates⟩ := created
    have creation := happens.creation creates
    refine ⟨creation.configured, fun held => ?_⟩
    rw [creation.heldAtCreate, held, Bool.true_or]
  · have remains : t.input.Remains possible KeepsStart :=
      keepsStart_remains other (not_exists.mp created)
    obtain ⟨configured, held⟩ := happens.confined bound_keepsStart keepsStart_cancelStep remains
    exact ⟨configured, held.trans⟩

end Turn

namespace Runs

variable {ts : List Turn} {s s' : SessionState}

/-- Once the configuration is over it stays so, and nothing else ends it. -/
theorem configured_iff (run : Runs possible s ts s') : s'.process.configured = true ↔
    s.process.configured = true ∨ ∃ t ∈ ts, t.input = .asked .configurationDone := by
  induction run with
  | nil s => simp
  | @cons t rest s' happens following inductionHypothesis =>
      rw [inductionHypothesis, List.exists_mem_cons_iff]
      by_cases ends : t.input = .asked .configurationDone
      · simp [ends, (happens.configured ends).1]
      · simp [ends, (happens.keepsHold ends).1]

theorem staysHeld (run : Runs possible s ts s')
    (unconfigured : ∀ t ∈ ts, t.input ≠ .asked .configurationDone)
    (held : s.process.heldAtCreate = true) : s'.process.heldAtCreate = true :=
  run.preserves (P := fun s => s.process.heldAtCreate = true)
    (fun t member happens => (happens.keepsHold (unconfigured t member)).2) held

end Runs

/-- What happens until the configuration of a process that is held at its creation is over:
`earlier` are the turns up to `done`, which ends it. -/
structure Held (earlier : List Turn) (done : Turn) : Prop where
  resumed : ∀ t ∈ earlier, ¬ t.input.GoesOn → t.LetsGo → t.ownResumes = 1
  stayed : ∀ t ∈ earlier, ¬ t.input.GoesOn → ¬ t.LetsGo → t.ownResumes = 0
  /-- When the process stays where it was created. -/
  undisturbed : (∀ t ∈ earlier, ¬ t.input.GoesOn) →
    ((∀ t ∈ earlier, t.ownResumes = 0) ↔ ∀ t ∈ earlier, ¬ t.LetsGo)
  /-- The process is let go on at the end, whether or not it has gone on already. -/
  released : evalOps done.transcript = [.native .continueProcess]

/-- A process that is created after the end of the configuration goes on at once. Before, it is
held, but only the notification of its creation knows of that. -/
theorem held_at_creation {config : SessionConfig} {front rest : List Turn} {created : Turn}
    {pid : UInt32} {s : SessionState}
    (run : Runs possible (.start config) (front ++ created :: rest) s)
    (creates : created.input = .notified (.processCreated pid)) :
    ((∃ t ∈ front, t.input = .asked .configurationDone) →
      evalOps created.transcript = [.native .continueProcess]) ∧
    ((∀ t ∈ front, t.input ≠ .asked .configurationDone) →
      evalOps created.transcript = [] ∧
      ∀ during done later, rest = during ++ done :: later →
        (∀ t ∈ during, t.input ≠ .asked .configurationDone) →
        done.input = .asked .configurationDone → Held (front ++ created :: during) done) := by
  obtain ⟨s', before, fromCreation⟩ := runs_append_iff.mp run
  obtain ⟨rfl, happens, following⟩ := runs_cons_iff.mp fromCreation
  have creation := happens.creation creates
  have configured := before.configured_iff
  rw [creation.answered]
  constructor
  · intro ended
    rw [if_pos (configured.mpr (.inr ended))]
  · intro unended
    have unconfigured : created.before.process.configured = false := by
      refine Bool.eq_false_iff.mpr fun ended => ?_
      cases configured.mp ended with
      | inl atStart => cases atStart
      | inr ended =>
          obtain ⟨t, member, ends⟩ := ended
          exact unended t member ends
    have held : created.after.process.heldAtCreate = true := by
      rw [creation.heldAtCreate, unconfigured, Bool.not_false, Bool.or_true]
    refine ⟨by rw [unconfigured]; rfl, ?_⟩
    rintro during done later rfl unended' ends
    obtain ⟨s'', meanwhile, fromEnd⟩ := runs_append_iff.mp following
    obtain ⟨rfl, happens', -⟩ := runs_cons_iff.mp fromEnd
    have upToEnd : Runs possible (.start config) (front ++ created :: during) done.before :=
      runs_append_iff.mpr ⟨_, before, .cons happens meanwhile⟩
    have exactly (t : Turn) (member : t ∈ front ++ created :: during) (kept : ¬ t.input.GoesOn) :=
      (upToEnd.happens t member).ownResumes_unasked kept
    exact {
      resumed := fun t member kept => (exactly t member kept).1
      stayed := fun t member kept => (exactly t member kept).2
      undisturbed := fun kept => forall₂_congr fun t member => by
        obtain ⟨resumed, stayed⟩ := exactly t member (kept t member)
        refine ⟨fun none letsGo => ?_, stayed⟩
        rw [resumed letsGo] at none
        cases none
      released := by
        rw [(happens'.configured ends).2, meanwhile.staysHeld unended' held]
        rfl }

section EarlyThread

/-- A process is created. -/
def creationTurn : Turn := (Input.notified (.processCreated 4242)).turn oneFrame (.start {})

/-- Then a thread of it is announced. -/
def earlyThread : Turn := (Input.notified (.threadCreated 2)).turn oneFrame creationTurn.after

/-- Only then does the configuration end. -/
def lateEnd : Turn := (Input.asked .configurationDone).turn oneFrame earlyThread.after

theorem runs_earlyThread :
    Runs EvalOp.Succeeds (.start {}) ([] ++ creationTurn :: [earlyThread, lateEnd])
      lateEnd.after := by
  apply Runs.cons (happens_turn oneFrame _ _)
  apply Runs.cons (happens_turn oneFrame _ _)
  exact .cons (happens_turn oneFrame _ _) (.nil _)

theorem held_earlyThread :
    creationTurn.input = .notified (.processCreated 4242) ∧
      evalOps creationTurn.transcript = [] ∧ Held [creationTurn, earlyThread] lateEnd := by
  obtain ⟨waits, held⟩ := (held_at_creation runs_earlyThread rfl).2 (List.forall_mem_nil _)
  refine ⟨rfl, waits, held [earlyThread] lateEnd [] rfl ?_ rfl⟩
  exact List.forall_mem_singleton.mpr nofun

/-- The thread lets the process go on while it is held, and so it goes on twice. -/
theorem not_undisturbed_earlyThread :
    Runs EvalOp.Succeeds (.start {}) ([] ++ creationTurn :: [earlyThread, lateEnd])
        lateEnd.after ∧
      creationTurn.after.process.heldAtCreate = true ∧
      earlyThread.after.process.heldAtCreate = true ∧
      [creationTurn, earlyThread, lateEnd].map (·.ownResumes) = [0, 1, 1] :=
  ⟨runs_earlyThread, rfl, rfl, rfl⟩

end EarlyThread

end Session

end ManagedDebugger
