import ManagedDebugger.Proofs.Server.History
import ManagedDebugger.Proofs.Session.Ends

/-!
# Sessions whose locks are in order

Whatever happens to a server, nobody is forgotten in a line for a lock of its sessions. So a session
that is told to disconnect comes to its end, unless the dispatcher works on the step in flight and
waits for an evaluation that may take forever.
-/

namespace ManagedDebugger

variable {τ α : Type}

/-- A session that no request works on. -/
def Machine.Free (m : SessionMachine) : Prop :=
  Run.Fair (⟨m, .finished (), none⟩ : Run SessionState SessionEvent Unit)

namespace Machine

variable {m : SessionMachine}

theorem free_start (s : SessionState) : Free (.start s) :=
  ⟨fun _ => ⟨none, none⟩, fun _ => ⟨List.nodup_nil, fun _ => by simp [line, start],
    nofun⟩, Task.at_finished (), Task.at_finished ()⟩

theorem free_of_ended {task : Task SessionState SessionEvent α} {a : α}
    (fair : Run.Fair ⟨m, task, none⟩) (ended : task.result? = some a) : m.Free := by
  obtain rfl := Task.eq_finished_of_result? ended
  obtain ⟨posts, lined, stands, stands'⟩ := fair
  refine ⟨posts, lined, ?_, stands'⟩
  rw [stands.finished]
  exact Task.at_finished ()

/-- A request begins without a lock. -/
theorem Free.begin {p : SessionJob α} (free : m.Free) (tidy : p.Tidy) :
    Run.Fair ⟨m, .ready p, none⟩ := by
  obtain ⟨posts, lined, stands, stands'⟩ := free
  refine ⟨posts, lined, ?_, stands'⟩
  rw [stands.finished]
  exact Task.at_ready tidy

end Machine

theorem Run.Fair.raise {m : SessionMachine} {task : Task SessionState SessionEvent α}
    (fair : Run.Fair ⟨m, task, none⟩) (events : List NativeEvent) :
    Run.Fair ⟨m.raise events, task, none⟩ :=
  fair.aside rfl rfl rfl

/-- To open a session, no lock is taken and nothing is waited for. -/
theorem Request.prompt_opening {request : Request} {o : Opening}
    (opens : request.opening? = some o) : Job.Tidy o.work.run ∧ Job.Awaits [] o.work.run := by
  cases request with
  | launch agent config request =>
      cases opens
      exact ⟨.run_map _ (Session.tidy_launch request),
        .run_bind (Session.awaits_launch request) fun _ => .pure _⟩
  | attach agent config pid =>
      cases opens
      exact ⟨.run_map _ (Session.tidy_attach pid),
        .run_bind (Session.awaits_attach pid) fun _ => .pure _⟩
  | capabilities => cases opens
  | disconnect kill => cases opens
  | session request => cases opens

theorem Session.tidy_disconnecting (kill : Bool) : (Session.disconnecting kill).Tidy :=
  .map _ (Session.tidy_disconnect kill)

theorem Session.awaits_disconnecting (kill : Bool) :
    Job.Awaits [.stepper] (Session.disconnecting kill) :=
  .bind (Session.awaits_disconnect kill) fun _ => .pure _

/-- A session that is on its way to its end, and the request that waits for that. -/
structure Closing.Fair (c : Closing) : Prop where
  stands : Run.Fair ⟨c.session, c.task, none⟩
  awaits : c.task.Awaits [.stepper]
  tidy : c.work.run.Tidy
  prompt : c.work.run.Awaits []

namespace Server

variable {net : Network τ} {s s' : Server τ} {m : SessionMachine}

/-- The locks of all sessions are in order. -/
structure Fair (s : Server τ) : Prop where
  free : ∀ m, s.session = some m → (∀ o, s.ongoing = some o → o.place.isNew? = none) → m.Free
  ongoing : ∀ o m, s.ongoing = some o → o.place.session? s.session = some m →
    Run.Fair ⟨m, o.task, none⟩
  awaits : ∀ o, s.ongoing = some o → o.place.isNew? ≠ some false → o.task.Awaits [.stepper]
  closing : ∀ c, s.closing = some c → c.Fair ∧ s.ongoing = none

theorem Fair.free_of_idle (fair : s.Fair) (idle : s.ongoing = none) :
    ∀ m, s.session = some m → m.Free :=
  fun m current => fair.free m current fun o same =>
    absurd (idle.symm.trans same) (Option.some_ne_none o).symm

theorem Fair.not_closing {o : Ongoing} (fair : s.Fair) (ongoing : s.ongoing = some o) :
    s.closing = none := by
  rw [Option.eq_none_iff_forall_not_mem]
  intro c closing
  rw [(fair.closing c closing).2] at ongoing
  cases ongoing

theorem fair_start (target : τ) : Fair (start target) where
  free _ current := absurd current (Option.some_ne_none _).symm
  ongoing o _ ongoing := absurd ongoing (Option.some_ne_none o).symm
  awaits o ongoing := absurd ongoing (Option.some_ne_none o).symm
  closing c closing := absurd closing (Option.some_ne_none c).symm

/-- A run touches neither the current session nor what is under way. -/
structure Ran (s : Server τ) (before : Task SessionState SessionEvent α)
    (after : Task SessionState SessionEvent α × SessionMachine) (s' : Server τ) : Prop where
  stands : Run.Fair ⟨after.2, after.1, none⟩
  awaits : ∀ locks, before.Awaits locks → after.1.Awaits locks
  session : s'.session = s.session
  ongoing : s'.ongoing = s.ongoing
  closing : s'.closing = s.closing

theorem ran_run (net : Network τ) {task : Task SessionState SessionEvent α}
    (fair : Run.Fair ⟨m, task, none⟩) (s : Server τ) : Yields (run net m task) s (Ran s task) where
  stands := (fair.toRest Session.tidies_handle net.fuel s.target).aside rfl rfl rfl
  awaits locks awaits := by
    obtain ⟨_, passes, -⟩ := Run.passes_toRest_anyReply net.backend (some Session.handle) net.fuel
      ⟨m, task, none⟩ s.target
    exact passes.awaits awaits
  session := rfl
  ongoing := rfl
  closing := rfl

theorem fair_of_idle (ongoing : s.ongoing = none) (closing : s.closing = none)
    (free : ∀ m, s.session = some m → m.Free) : s.Fair where
  free m current _ := free m current
  ongoing o _ same := absurd (ongoing.symm.trans same) (Option.some_ne_none o).symm
  awaits o same := absurd (ongoing.symm.trans same) (Option.some_ne_none o).symm
  closing c same := absurd (closing.symm.trans same) (Option.some_ne_none c).symm

theorem fair_of_ongoing {o : Ongoing} (ongoing : s.ongoing = some o) (closing : s.closing = none)
    (stands : ∀ m, o.place.session? s.session = some m → Run.Fair ⟨m, o.task, none⟩)
    (awaits : o.place.isNew? ≠ some false → o.task.Awaits [.stepper])
    (free : o.place.isNew? = none → ∀ m, s.session = some m → m.Free) : s.Fair where
  free m current left := free (left o ongoing) m current
  ongoing o' m same here := by
    cases ongoing.symm.trans same
    exact stands m here
  awaits o' same := by
    cases ongoing.symm.trans same
    exact awaits
  closing c same := absurd (closing.symm.trans same) (Option.some_ne_none c).symm

theorem fair_of_closing {c : Closing} (closing : s.closing = some c) (ongoing : s.ongoing = none)
    (fair : c.Fair) (free : ∀ m, s.session = some m → m.Free) : s.Fair where
  free m current _ := free m current
  ongoing o _ same := absurd (ongoing.symm.trans same) (Option.some_ne_none o).symm
  awaits o same := absurd (ongoing.symm.trans same) (Option.some_ne_none o).symm
  closing c' same := by
    cases closing.symm.trans same
    exact ⟨fair, ongoing⟩

section Proceed

variable {o : Ongoing} (free : o.place.isNew? = none → ∀ m', s.session = some m' → m'.Free)
  (moving : s.closing = none)

include free moving

theorem fair_finish (result : Except EngineError Json) (freed : m.Free) :
    Yields (finish o m result) s fun _ => Fair := by
  obtain ⟨id, place, task⟩ := o
  refine .afterModify ?_
  cases place with
  | left previous => exact fair_of_idle rfl moving (free rfl)
  | current isNew =>
      have kept : Fair { s with ongoing := none, session := some m } :=
        fair_of_idle rfl moving fun m₁ here => Option.some.inj here ▸ freed
      cases isNew with
      | false => exact kept
      | true =>
          cases result with
          | ok json => exact kept
          | error e =>
              refine fair_of_idle rfl moving fun m₁ here => ?_
              exact absurd here (Option.some_ne_none m₁).symm

theorem fair_putBack (stands : Run.Fair ⟨m, o.task, none⟩)
    (awaits : o.place.isNew? ≠ some false → o.task.Awaits [.stepper]) :
    Yields (putBack o m) s fun _ => Fair := by
  obtain ⟨id, place, task⟩ := o
  cases place with
  | left previous =>
      refine fair_of_ongoing rfl moving (fun m₁ here => ?_) awaits free
      exact Option.some.inj here ▸ stands
  | current isNew =>
      refine fair_of_ongoing rfl moving (fun m₁ here => ?_) awaits fun left => ?_
      · exact Option.some.inj here ▸ stands
      · exact absurd left (Option.some_ne_none isNew)

/-- A request that goes on, while no session is on its way to its end. -/
theorem fair_proceed (stands : Run.Fair ⟨m, o.task, none⟩)
    (awaits : o.place.isNew? ≠ some false → o.task.Awaits [.stepper]) :
    Yields (proceed net o m) s fun _ => Fair := by
  refine (ran_run net stands s).bind ?_
  rintro ⟨task, m'⟩ s₁ ran
  have moving₁ := ran.closing.trans moving
  rw [← ran.session] at free
  dsimp only
  cases ended : task.result? with
  | some result =>
      exact .map (fair_finish free moving₁ result (Machine.free_of_ended ran.stands ended))
  | none =>
      have still : o.place.isNew? ≠ some false → task.Awaits [.stepper] :=
        fun manages => ran.awaits _ (awaits manages)
      exact .bind (fair_putBack (o := { o with task }) free moving₁ ran.stands still) fun _ _ => id

end Proceed

theorem fair_beginWork {id : Json} {work : SessionWork Json} (tidy : work.run.Tidy)
    (prompt : work.run.Awaits []) (idle : s.ongoing = none) (moving : s.closing = none)
    (free : ∀ m, s.session = some m → m.Free) : Yields (beginWork net id work) s fun _ => Fair := by
  refine .afterGet ?_
  cases current : s.session with
  | none =>
      refine .pure (fair_of_idle idle moving fun m here => ?_)
      exact absurd (current.symm.trans here) (Option.some_ne_none m).symm
  | some m =>
      have begun := (free m current).begin tidy
      exact fair_proceed nofun moving begun fun _ => .ready prompt.of_nil

theorem fair_close {c : Closing} (fair : c.Fair) (idle : s.ongoing = none)
    (free : ∀ m, s.session = some m → m.Free) : Yields (close net c) s fun _ => Fair := by
  refine (ran_run net fair.stands s).bind ?_
  rintro ⟨task, m'⟩ s₁ ran
  have idle₁ := ran.ongoing.trans idle
  rw [← ran.session] at free
  dsimp only
  cases task.result? with
  | some result => exact .afterModify (fair_beginWork fair.tidy fair.prompt idle₁ rfl free)
  | none =>
      have still : Closing.Fair { c with session := m', task } :=
        ⟨ran.stands, ran.awaits _ fair.awaits, fair.tidy, fair.prompt⟩
      exact .afterModify (.pure (fair_of_closing rfl idle₁ still free))

theorem fair_connect (request : Request) {o : Opening} (opens : request.opening? = some o)
    {id : Json} (fair : s.Fair) (idle : s.ongoing = none) (moving : s.closing = none) :
    Yields (connect net id o.agent o.config o.work) s fun _ => Fair := by
  have free := fair.free_of_idle idle
  have new (m : SessionMachine) (same : some (.start (.start o.config)) = some m) : m.Free :=
    Option.some.inj same ▸ Machine.free_start _
  obtain ⟨tidy, prompt⟩ := request.prompt_opening opens
  refine .afterGet (.afterSet ?_)
  split
  · exact fair_of_idle idle moving free
  · refine .afterModify ?_
    cases previous : s.session with
    | none => exact fair_beginWork tidy prompt idle moving new
    | some m =>
        have stands := (free m previous).begin (Session.tidy_disconnect false)
        have awaits := Task.Awaits.ready (Session.awaits_disconnect false)
        exact fair_close ⟨stands, awaits, tidy, prompt⟩ idle new

theorem fair_disconnect {id : Json} {kill : Bool} (fair : s.Fair) (idle : s.ongoing = none)
    (moving : s.closing = none) : Yields (disconnect net id kill) s fun _ => Fair := by
  refine .afterGet ?_
  cases current : s.session with
  | none => exact fair
  | some m =>
      have begun := (fair.free_of_idle idle m current).begin (Session.tidy_disconnecting kill)
      have awaits := Task.Awaits.ready (Session.awaits_disconnecting kill)
      refine .afterModify (fair_proceed (fun _ m' here => ?_) moving begun fun _ => awaits)
      exact absurd here (Option.some_ne_none m').symm

theorem fair_perform (request : Request) {id : Json} (fair : s.Fair) (idle : s.ongoing = none)
    (moving : s.closing = none) : Yields (perform net id request) s fun _ => Fair := by
  cases request with
  | capabilities => exact fair
  | launch agent config request =>
      exact fair_connect (.launch agent config request) rfl fair idle moving
  | attach agent config pid =>
      exact fair_connect (.attach agent config pid) rfl fair idle moving
  | disconnect kill => exact fair_disconnect fair idle moving
  | session request =>
      refine .afterGet ?_
      cases current : s.session with
      | none => exact fair
      | some m =>
          have begun := (fair.free_of_idle idle m current).begin (Session.tidy_work request)
          exact fair_proceed nofun moving begun fun manages => absurd rfl manages

theorem fair_notify (events : List NativeEvent) (fair : s.Fair) (idle : s.ongoing = none) :
    Yields (notify net events) s fun _ => Fair := by
  refine .afterGet ?_
  rw [idle]
  cases current : s.session with
  | none => exact fair
  | some m =>
      let m' := m.raise events
      have stands : Run.Fair ⟨m', .finished (), none⟩ :=
        (fair.free_of_idle idle m current).raise events
      have ran := ran_run net stands s
      have ended : (run net m' (.finished ()) s).1.1 = .finished () :=
        Run.toRest_finished net.backend (some Session.handle) net.fuel s.target rfl
      have freed : (run net m' (.finished ()) s).1.2.Free :=
        Machine.free_of_ended ran.stands (congrArg Task.result? ended)
      cases closing : s.closing with
      | none => exact fair_of_idle idle closing fun m₁ here => Option.some.inj here ▸ freed
      | some c =>
          have still := (fair.closing c closing).1
          exact fair_of_closing closing idle still fun m₁ here => Option.some.inj here ▸ freed

theorem invariant_fair (net : Network τ) : Invariant net Fair where
  waiting _ _ _ fair := ⟨fair.free, fair.ongoing, fair.awaits, fair.closing⟩
  performed s _ request idle fair := by
    obtain ⟨idle, moving⟩ := isIdle_iff.mp idle
    exact fair_perform request fair idle moving
  goesOn s o m events ongoing here fair := by
    have stands := (fair.ongoing o m ongoing here).raise events
    refine fair_proceed (fun left m' current => ?_) (fair.not_closing ongoing) stands
      (fair.awaits o ongoing)
    refine fair.free m' current fun o' same => ?_
    cases ongoing.symm.trans same
    exact left
  notified s events idle fair := fair_notify events fair idle
  closes s c events closing fair := by
    obtain ⟨fair', idle⟩ := fair.closing c closing
    refine fair_close ?_ idle (fair.free_of_idle idle)
    exact ⟨fair'.stands.raise events, fair'.awaits, fair'.tidy, fair'.prompt⟩

end Server

end ManagedDebugger
