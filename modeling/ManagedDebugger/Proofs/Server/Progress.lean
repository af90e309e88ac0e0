import ManagedDebugger.Proofs.Server.Fairness
import ManagedDebugger.Proofs.Server.Record
import ManagedDebugger.Proofs.Server.Steps

/-!
# Sessions come to their end

If its target comes to rest, a session that is told to disconnect comes to its end, and so does the
request for which a session was opened. The one exception is a session whose dispatcher keeps the
step in flight to itself and waits for an evaluation that may take forever; that goes on when the
evaluation ends.
-/

namespace ManagedDebugger

variable {τ α : Type}

theorem Backend.Subsides.recorded {net : Network τ} {load : τ → Nat}
    (subsides : net.backend.Subsides load) : net.recorded.backend.Subsides fun t => load t.1 :=
  fun call t => subsides call t.1

namespace Server

/-- A task that goes on in a session comes to its end. -/
def comesToEnd (net : Network τ) (m : SessionMachine) (task : Task SessionState SessionEvent α)
    (t : τ × List Contact) : Bool :=
  (m.work net.recorded.backend (some Session.handle) net.fuel task t).1.result?.isSome

/-- A session is told to disconnect, and comes to the end of that. -/
def isClosed (net : Network τ) (m : SessionMachine) (t : τ × List Contact) : Bool :=
  comesToEnd net m (.ready (Session.disconnect false)) t

/-- With enough steps, a task comes to its end in a session. -/
def Ends (net : Network τ) (m : SessionMachine) (task : Task SessionState SessionEvent α)
    (t : τ × List Contact) : Prop :=
  ∃ enough, ∀ fuel ≥ enough, comesToEnd { net with fuel } m task t = true

/-- With enough steps, a task comes to its end in a session, or wants the step in flight and the
dispatcher has it, and waits for an evaluation that may take forever. -/
def EndsOrStalls (net : Network τ) (m : SessionMachine) (task : Task SessionState SessionEvent α)
    (t : τ × List Contact) : Prop :=
  ∃ enough, ∀ fuel ≥ enough, comesToEnd { net with fuel } m task t = true ∨
    let (task', m', _) := m.work net.recorded.backend (some Session.handle) fuel task t
    m'.Stalls .stepper task'

variable {net : Network τ} {load : τ → Nat} {s : Server (τ × List Contact)} {m : SessionMachine}
  {task : Task SessionState SessionEvent α}

theorem ends (subsides : net.backend.Subsides load) (fair : Run.Fair ⟨m, task, none⟩)
    (awaits : task.Awaits []) (t : τ × List Contact) : Ends net m task t := by
  obtain ⟨enough, outcome⟩ := Session.ends_or_stalls subsides.recorded fair awaits t
  refine ⟨enough, fun fuel more => ?_⟩
  cases outcome fuel more with
  | inl ended => exact ended
  | inr stalled =>
      obtain ⟨lock, among, -⟩ := stalled
      exact absurd among List.not_mem_nil

theorem endsOrStalls (subsides : net.backend.Subsides load) (fair : Run.Fair ⟨m, task, none⟩)
    (awaits : task.Awaits [.stepper]) (t : τ × List Contact) : EndsOrStalls net m task t := by
  obtain ⟨enough, outcome⟩ := Session.ends_or_stalls subsides.recorded fair awaits t
  refine ⟨enough, fun fuel more => (outcome fuel more).imp_right fun stalled => ?_⟩
  obtain ⟨lock, among, stalls⟩ := stalled
  exact List.mem_singleton.mp among ▸ stalls

/-- Whatever has to come to its end for a launch, an attach or a disconnect does so, or goes on when
an evaluation ends. -/
structure Progresses (net : Network τ) (s : Server (τ × List Contact)) : Prop where
  disconnects : s.isIdle = true → ∀ m, s.session = some m → ∀ kill t,
    EndsOrStalls net m (.ready (Session.disconnecting kill)) t
  replaces : s.isIdle = true → ∀ m, s.session = some m → ∀ t,
    EndsOrStalls net m (.ready (Session.disconnect false)) t
  /-- Nothing is in the way if the target only answers, and the dispatcher is not at work. -/
  closes : net.backend.Subsides (fun _ => 0) → s.isIdle = true → ∀ m, s.session = some m →
    m.dispatcher = .finished () → m.backlog = 0 → ∀ t,
    ∃ enough, ∀ fuel ≥ enough, isClosed { net with fuel } m t = true
  closesOn : ∀ c, s.closing = some c → ∀ events t,
    EndsOrStalls net (c.session.raise events) c.task t
  begins : ∀ c m, s.closing = some c → s.session = some m → ∀ t,
    Ends net m (.ready c.work.run) t
  opens : ∀ request : Request, ∀ o, request.opening? = some o → ∀ t,
    Ends net (.start (.start o.config)) (.ready o.work.run) t
  goesOn : ∀ o m, s.ongoing = some o → o.place.isNew? ≠ some false →
    o.place.session? s.session = some m → ∀ events t, EndsOrStalls net (m.raise events) o.task t

theorem Fair.progresses (fair : s.Fair) (subsides : net.backend.Subsides load) :
    Progresses net s where
  disconnects idle m current kill t := by
    have free := fair.free_of_idle (isIdle_iff.mp idle).1 m current
    exact endsOrStalls subsides (free.begin (Session.tidy_disconnecting kill))
      (.ready (Session.awaits_disconnecting kill)) t
  replaces idle m current t := by
    have free := fair.free_of_idle (isIdle_iff.mp idle).1 m current
    exact endsOrStalls subsides (free.begin (Session.tidy_disconnect false))
      (.ready (Session.awaits_disconnect false)) t
  closes silent idle m current finished empty t := by
    have free := fair.free_of_idle (isIdle_iff.mp idle).1 m current
    exact Session.ends_of_undisturbed silent.recorded ⟨finished, empty⟩
      (free.begin (Session.tidy_disconnect false)) (.ready (Session.awaits_disconnect false)) t
  closesOn c closing events t := by
    have closing := (fair.closing c closing).1
    exact endsOrStalls subsides (closing.stands.raise events) closing.awaits t
  begins c m closing current t := by
    obtain ⟨closing, idle⟩ := fair.closing c closing
    have free := fair.free_of_idle idle m current
    exact ends subsides (free.begin closing.tidy) (.ready closing.prompt) t
  opens request o opens t := by
    obtain ⟨tidy, prompt⟩ := request.prompt_opening opens
    exact ends subsides ((Machine.free_start _).begin tidy) (.ready prompt) t
  goesOn o m ongoing manages here events t :=
    endsOrStalls subsides ((fair.ongoing o m ongoing here).raise events)
      (fair.awaits o ongoing manages) t

end Server

end ManagedDebugger
