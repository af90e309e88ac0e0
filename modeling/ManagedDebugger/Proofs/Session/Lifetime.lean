import ManagedDebugger.Proofs.Session.FirstRead
import ManagedDebugger.Proofs.Session.Milestones
import ManagedDebugger.Proofs.Session.Turn

/-!
# How a request gets on with its milestones

While a machine works on a request, the target is called for no other milestones than those of the
request, in their order; so what a request was expected to call for is what it did call for, with
what still lies ahead of it. A session that is told to disconnect ends the work on its process if it
is live at the moment when the request reads that.
-/

namespace ManagedDebugger

variable {σ ε α β τ : Type}

/-- However a task goes on, its milestones are as wanted. -/
def Task.Meets (task : Task σ ε α) (wanted : List NativeCall → Prop) : Prop :=
  ∃ rest, task.StandsAt rest ∧ rest.Meets wanted

namespace Task.Meets

variable {possible : Exchange evalEffect → Prop} {wanted : List NativeCall → Prop}
  {task task' : Task σ ε α} {s s' : σ} {seen : Trace ε}

theorem ready {p : Job σ ε α} (meets : p.Meets wanted) : Meets (.ready p) wanted :=
  ⟨p, .ready p, meets⟩

theorem mono {wanted' : List NativeCall → Prop} (meets : task.Meets wanted)
    (implied : ∀ calls, wanted calls → wanted' calls) : task.Meets wanted' := by
  obtain ⟨rest, stands, meets⟩ := meets
  exact ⟨rest, stands, fun es a played => implied _ (meets es a played)⟩

/-- A task that is over has met what was wanted of it. -/
theorem of_result? {a : α} (meets : task.Meets wanted) (ended : task.result? = some a) :
    wanted [] := by
  obtain rfl := Task.eq_finished_of_result? ended
  obtain ⟨rest, stands, meets⟩ := meets
  cases stands
  exact meets [] a (.done a)

/-- What was seen of a task that went on counts. -/
theorem move (meets : task.Meets wanted) (moved : task.Moves possible s seen task' s') :
    task'.Meets fun more => wanted (seen.milestones ++ more) := by
  obtain ⟨rest, stands, meets⟩ := meets
  cases moved with
  | still => exact ⟨rest, stands, meets⟩
  | @perform op next reply _ _ _ =>
      cases stands
      exact .ready (meets.next reply)
  | wait =>
      cases stands
      exact ⟨_, .waiting _ _ _ _, meets⟩
  | waited =>
      cases stands
      exact .ready (meets.next _)
  | block =>
      cases stands
      exact ⟨_, .blocked _ _, meets⟩
  | unblock =>
      cases stands
      exact .ready (meets.next ())
  | finish =>
      cases stands
      exact ⟨_, .finished _, meets⟩

end Task.Meets

namespace Session

variable {possible : Exchange evalEffect → Prop} {wanted : List NativeCall → Prop}

/-- Every task of a session can come to its end. -/
theorem exists_of_meets {task : Task SessionState SessionEvent α} (s : SessionState)
    (meets : task.Meets wanted) : ∃ calls, wanted calls := by
  obtain ⟨rest, -, meets⟩ := meets
  exact ⟨_, meets _ _ (Program.plays_simulate (E := workEffect SessionState SessionEvent)
    (respond fun _ => default) rest s)⟩

end Session

/-- The dispatcher neither begins nor ends the work on a process. -/
def Machine.Quiet (m : Machine σ ε) : Prop := m.dispatcher.Meets (· = [])

theorem Machine.quiet_start (s : σ) : (Machine.start s : Machine σ ε).Quiet :=
  ⟨_, .finished (), .done rfl⟩

namespace Session

variable {possible : Exchange evalEffect → Prop} {wanted : List NativeCall → Prop}

/-- The milestones that others see of a run are those of its request. -/
theorem meets_passes {r r' : Run SessionState SessionEvent α} {seen : Trace SessionEvent}
    (passes : Run.Passes possible (some handle) r seen r') (quiet : r.machine.Quiet) :
    r'.machine.Quiet ∧ ∀ wanted, r.request.Meets wanted →
      r'.request.Meets fun more => wanted (seen.milestones ++ more) := by
  induction passes with
  | refl => exact ⟨quiet, fun _ => id⟩
  | @tail r₁ r₂ first second _ moved inductionHypothesis =>
      obtain ⟨quiet, meets⟩ := inductionHypothesis
      rw [Trace.milestones_append]
      simp only [List.append_assoc]
      cases moved with
      | request moved =>
          refine ⟨?_, fun wanted met => (meets wanted met).move moved.task⟩
          rw [Machine.Quiet, moved.dispatcher]
          exact quiet
      | dispatcher moved request _ =>
          have quiet' := quiet.move moved
          -- the dispatcher can come to its end, and will have met no milestone then
          obtain ⟨more, none⟩ := exists_of_meets r₁.machine.state quiet'
          obtain ⟨silent, -⟩ := List.append_eq_nil_iff.mp none
          rw [silent] at quiet' ⊢
          rw [request]
          exact ⟨quiet', meets⟩
      | begins handled idle begun request _ _ =>
          cases handled
          rw [request]
          refine ⟨?_, meets⟩
          rw [Machine.Quiet, begun]
          exact .ready (.ofQuiet (quiet_handle _))

variable {backend : Backend τ} {fuel : Nat}

/-- Whatever a machine does, the target is called for the milestones of the request alone. -/
theorem meets_toRest (backend : Backend τ) (fuel : Nat) {r : Run SessionState SessionEvent α}
    (t : τ) (quiet : r.machine.Quiet) :
    ∃ calls, backend.Answers t calls (r.toRest backend (some handle) fuel t).2 ∧
      (r.toRest backend (some handle) fuel t).1.machine.Quiet ∧
      ∀ wanted, r.request.Meets wanted →
        (r.toRest backend (some handle) fuel t).1.request.Meets fun more =>
          wanted (calls.filter (·.isMilestone) ++ more) := by
  obtain ⟨seen, passes, answers⟩ := Run.passes_toRest_anyReply backend (some handle) fuel r t
  obtain ⟨quiet', meets⟩ := meets_passes passes quiet
  exact ⟨seen.called, answers, quiet', meets⟩

/-- Up to the first read there is no difference to a request that does nothing but read. -/
theorem quiet_firstRead {before : Nat} {m m₁ : Machine SessionState SessionEvent} {t t₁ : τ}
    (quiet : m.Quiet)
    (reads : Run.toRest backend (some handle) before ⟨m, .ready (.reading .done), none⟩ t =
      (⟨m₁, .ready (.done m₁.state), some .request⟩, t₁)) :
    ∃ calls, backend.Answers t calls t₁ ∧ m₁.Quiet ∧ calls.filter (·.isMilestone) = [] := by
  obtain ⟨calls, answers, quiet₁, meets⟩ := meets_toRest backend before
    (r := ⟨m, .ready (.reading .done), none⟩) t quiet
  rw [reads] at answers quiet₁ meets
  obtain ⟨rest, stands, none⟩ := meets (· = []) (.ready (.ofQuiet (.update fun s => (s, s))))
  cases stands
  have silent := none [] m₁.state (.done _)
  rw [show milestonesOf [] = [] from rfl, List.append_nil] at silent
  exact ⟨calls, answers, quiet₁, silent⟩

/-- A request that begins by reading the state goes on as is wanted for the state that it finds. -/
theorem meets_reading {next : SessionState → SessionJob α}
    {wanted : SessionState → List NativeCall → Prop} (backend : Backend τ) (fuel : Nat)
    {m : Machine SessionState SessionEvent} (t : τ) (quiet : m.Quiet)
    (meets : ∀ s, (next s).Meets (wanted s)) :
    let (task, m', t') := m.work backend (some handle) fuel (.ready (.reading next)) t
    let found? := m.firstRead? backend (some handle) fuel t
    ∃ calls, backend.Answers t calls t' ∧ m'.Quiet ∧
      (task.Meets fun more => ∃ s, (∀ found ∈ found?, found = s) ∧
        wanted s (calls.filter (·.isMilestone) ++ more)) ∧
      (task.result?.isSome = true → found?.isSome = true) := by
  unfold Machine.work
  dsimp only
  cases Run.readsAlike backend (some handle) fuel m none t with
  | waits m₁ turn t₁ rests =>
      have ahead : Job.Meets (.reading next) fun calls => ∃ s, wanted s calls := by
        intro es a played
        obtain ⟨s, rest, rfl, continued⟩ := Program.plays_perform_iff.mp played
        exact ⟨s, meets s rest a continued⟩
      obtain ⟨calls, answers, quiet', meets'⟩ := meets_toRest backend fuel
        (r := ⟨m, .ready (.reading next), none⟩) t quiet
      rw [Machine.firstRead?_of_waits (rests .done)]
      refine ⟨calls, answers, quiet', (meets' _ (.ready ahead)).mono fun more met => ?_, ?_⟩
      · obtain ⟨s, met⟩ := met
        exact ⟨s, fun found among => absurd among (Option.not_mem_none found), met⟩
      · rw [rests next]
        exact fun ended => absurd ended Bool.false_ne_true
  | reads before after m₁ t₁ whole reads =>
      subst whole
      obtain ⟨earlier, answers₁, quiet₁, silent⟩ := quiet_firstRead quiet (reads .done)
      obtain ⟨later, answers₂, quiet₂, meets₂⟩ := meets_toRest backend after
        (r := ⟨m₁, .ready (next m₁.state), some .request⟩) t₁ quiet₁
      rw [Run.toRest_add, reads next, Machine.firstRead?_of_reads (reads .done)]
      refine ⟨earlier ++ later, answers₁.append answers₂, quiet₂,
        (meets₂ _ (.ready (meets m₁.state))).mono fun more met => ?_, ?_⟩
      · refine ⟨m₁.state, fun found same => ?_, ?_⟩
        · rcases Option.mem_ite_none_left.mp same with ⟨-, among⟩
          exact (Option.some.inj among).symm
        · rwa [List.filter_append, silent, List.nil_append]
      · cases after with
        | zero => exact fun ended => absurd ended Bool.false_ne_true
        | succ after => exact fun _ => rfl

/-- Whether the process of a session is live when a request reads that, if it comes to that. -/
def live? (backend : Backend τ) (fuel : Nat) (m : Machine SessionState SessionEvent) (t : τ) :
    Option Bool :=
  (m.firstRead? backend (some handle) fuel t).map (·.process.status.isLive)

theorem meets_disconnect (backend : Backend τ) (fuel : Nat) (f : Unit → α) (kill : Bool)
    {m : Machine SessionState SessionEvent} (t : τ) (quiet : m.Quiet) :
    let (task, m', t') := m.work backend (some handle) fuel (.ready (f <$> disconnect kill)) t
    ∃ calls, backend.Answers t calls t' ∧ m'.Quiet ∧
      (task.Meets fun more => ∃ live, (∀ l ∈ live? backend fuel m t, l = live) ∧
        calls.filter (·.isMilestone) ++ more = endingCalls kill live) ∧
      (task.result?.isSome = true → (live? backend fuel m t).isSome = true) := by
  obtain ⟨rest, same, meets⟩ := exists_disconnect f kill
  rw [same]
  obtain ⟨calls, answers, quiet', meets', read⟩ := meets_reading backend fuel t quiet meets
  refine ⟨calls, answers, quiet', meets'.mono fun more met => ?_, fun ended => ?_⟩
  · obtain ⟨s, found, met⟩ := met
    refine ⟨_, fun l same => ?_, met⟩
    obtain ⟨s', among, rfl⟩ := Option.map_eq_some_iff.mp same
    rw [found s' among]
  · rw [live?, Option.isSome_map]
    exact read ended

end Session

end ManagedDebugger
