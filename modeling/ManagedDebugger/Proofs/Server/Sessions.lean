import ManagedDebugger.Proofs.Server.Progress
import ManagedDebugger.Proofs.Session.Lifetime

/-!
# The current session

A server has one session at most, the current one. A launch or an attach puts a new session in its
place as soon as the agent is reached, and tells the old one to disconnect; if the new one cannot be
used after all, there is none. What was done to the processes is read off the record of the target.
A request that has to wait is performed as if it came later (`Server.notify_afterLines` and
`Server.notifyReplaced_afterLines`), so that it is enough to look at the states between two
occurrences. That a session which has to end does so is a matter of its target and of its dispatcher
(`Server.Progresses`).
-/

namespace ManagedDebugger

variable {τ : Type}

/-- What becomes of the session that a request works on: it is the current one, unless the request
was for a session that had been left, or failed to make use of a new one. -/
def Place.leaves (m : SessionMachine) : Place → Option Response → Option SessionMachine
  | .current true, some ⟨_, .error _⟩ => none
  | .current _, _ => some m
  | .left _, _ => none

/-- A request works on the current session, or on one that was left without another in its place. -/
inductive Place.Fits (session : Option SessionMachine) : Place → Prop where
  | current (isNew : Bool) : session.isSome = true → Fits session (.current isNew)
  | left {m : SessionMachine} : m.Quiet → session = none → Fits session (.left m)

/-- A task that goes on may call for whatever it does. -/
theorem Task.meets_true {σ ε α : Type} (task : Task σ ε α) : task.Meets fun _ => True := by
  cases task with
  | ready p => exact ⟨p, .ready p, fun _ _ _ => trivial⟩
  | waiting ticket deadline next =>
      exact ⟨_, .waiting ticket none deadline next, fun _ _ _ => trivial⟩
  | blocked lock next => exact ⟨_, .blocked lock next, fun _ _ _ => trivial⟩
  | finished a => exact ⟨_, .finished a, fun _ _ _ => trivial⟩

namespace Server

section Proceed

variable {net : Network τ} {s s' : Server τ}

/-- What has become of a request and its session when a task of it has run. -/
structure Proceeds (o : Ongoing) (task : Task SessionState SessionEvent (Except EngineError Json))
    (m : SessionMachine) (s : Server τ) (r : Option Response) (s' : Server τ) : Prop where
  target : s'.target = s.target
  session : s'.session = o.place.leaves m r
  closing : s'.closing = s.closing
  ends : r.isSome = task.result?.isSome
  answered : r.isSome = true → s'.ongoing = none
  underWay : r = none → ∃ place : Place, s'.ongoing = some ⟨o.id, place, task⟩ ∧
    place.isNew? = o.place.isNew? ∧ (m.Quiet → place.Fits s'.session)

theorem proceeds_proceed (o : Ongoing) (m : SessionMachine) (fits : o.place.Fits s.session) :
    Yields (proceed net o m) s
      (Proceeds o (run net m o.task s).1.1 (run net m o.task s).1.2 (run net m o.task s).2) := by
  have unchanged : (run net m o.task s).2.session = s.session := rfl
  refine Yields.bind (P := fun out s₁ => run net m o.task s = (out, s₁)) rfl ?_
  rintro ⟨task, m'⟩ s₁ ran
  rw [ran] at unchanged ⊢
  dsimp only at unchanged ⊢
  obtain ⟨id, place, before⟩ := o
  cases ended : task.result? with
  | some result =>
      have ends : true = task.result?.isSome := by rw [ended]; rfl
      refine .map (.afterModify ?_)
      cases fits with
      | left _ none => exact ⟨rfl, unchanged.trans none, rfl, ends, fun _ => rfl, nofun⟩
      | current isNew _ =>
          cases isNew with
          | false => exact ⟨rfl, rfl, rfl, ends, fun _ => rfl, nofun⟩
          | true =>
              cases result with
              | ok json => exact ⟨rfl, rfl, rfl, ends, fun _ => rfl, nofun⟩
              | error e => exact ⟨rfl, rfl, rfl, ends, fun _ => rfl, nofun⟩
  | none =>
      have ends : false = task.result?.isSome := by rw [ended]; rfl
      cases fits with
      | left _ none =>
          have none : s₁.session = .none := unchanged.trans none
          refine ⟨rfl, none, rfl, ends, nofun, fun _ => ⟨.left m', rfl, rfl, fun quiet => ?_⟩⟩
          exact .left quiet none
      | current isNew _ =>
          refine ⟨rfl, ?_, rfl, ends, nofun, fun _ => ⟨.current isNew, rfl, rfl, fun _ => ?_⟩⟩
          · cases isNew <;> rfl
          · exact .current isNew rfl

/-- The calls of a request are as wanted: those that it made, with those that lie ahead of it. While
it is under way it still works on the session that it began with. -/
inductive Amounts (isNew? : Option Bool) (wanted : List NativeCall → Prop)
    (made : List NativeCall) : Option Response → Server τ → Prop where
  | answered {r : Response} {s : Server τ} : s.ongoing = none → wanted made →
      Amounts isNew? wanted made (some r) s
  | underWay {o : Ongoing} {s : Server τ} : s.ongoing = some o → o.place.isNew? = isNew? →
      o.task.Meets (fun more => wanted (made ++ more)) → Amounts isNew? wanted made none s

theorem Proceeds.amounts {o : Ongoing} {m : SessionMachine} {r : Option Response}
    {task : Task SessionState SessionEvent (Except EngineError Json)}
    {wanted : List NativeCall → Prop} {made : List NativeCall} (proceeds : Proceeds o task m s r s')
    (meets : task.Meets fun more => wanted (made ++ more)) :
    Amounts o.place.isNew? wanted made r s' := by
  cases r with
  | some r =>
      obtain ⟨result, ended⟩ := Option.isSome_iff_exists.mp proceeds.ends.symm
      have met := meets.of_result? ended
      rw [List.append_nil] at met
      exact .answered (proceeds.answered rfl) met
  | none =>
      obtain ⟨place, underWay, same, -⟩ := proceeds.underWay rfl
      exact .underWay underWay same meets

/-- No dispatcher begins or ends the work on a process, a request under way has its session, and a
session on its way to its end has another one in its place, for which no request has begun. -/
structure Sound (s : Server τ) : Prop where
  session : ∀ m, s.session = some m → m.Quiet
  ongoing : ∀ o, s.ongoing = some o → o.place.Fits s.session
  closing : ∀ c, s.closing = some c →
    c.session.Quiet ∧ s.session.isSome = true ∧ s.ongoing = none

theorem sound_start (target : τ) : Sound (start target) where
  session m current := absurd current (Option.some_ne_none m).symm
  ongoing o ongoing := absurd ongoing (Option.some_ne_none o).symm
  closing c closing := absurd closing (Option.some_ne_none c).symm

theorem Sound.not_closing {o : Ongoing} (sound : s.Sound) (ongoing : s.ongoing = some o) :
    s.closing = none := by
  rw [Option.eq_none_iff_forall_not_mem]
  intro c closing
  rw [(sound.closing c closing).2.2] at ongoing
  cases ongoing

theorem Proceeds.sound {o : Ongoing} {m : SessionMachine} {r : Option Response}
    {task : Task SessionState SessionEvent (Except EngineError Json)}
    (proceeds : Proceeds o task m s r s') (moving : s.closing = none) (quiet : m.Quiet) :
    s'.Sound where
  closing c closing := by
    rw [proceeds.closing, moving] at closing
    cases closing
  session := by
    intro m' current
    rw [proceeds.session] at current
    unfold Place.leaves at current
    split at current
    · cases current
    · cases current
      exact quiet
    · cases current
  ongoing := by
    intro o' ongoing
    cases r with
    | some r =>
        rw [proceeds.answered rfl] at ongoing
        cases ongoing
    | none =>
        obtain ⟨place, underWay, -, fits⟩ := proceeds.underWay rfl
        rw [underWay] at ongoing
        cases ongoing
        exact fits quiet

end Proceed

/-! ## Requests and their calls -/

section Recorded

variable {net : Network τ} {s s' : Server (τ × List Contact)} {m : SessionMachine}

/-- The milestones of all sessions so far. -/
def milestones (s : Server (τ × List Contact)) : List Contact := milestonesIn s.target.2

theorem meets_run {α : Type} (net : Network τ) (task : Task SessionState SessionEvent α)
    (s : Server (τ × List Contact)) (quiet : m.Quiet) :
    let ((task', m'), s') := run net.recorded m task s
    ∃ made, s'.milestones = s.milestones ++ made.map .called ∧ m'.Quiet ∧
      ∀ wanted, task.Meets wanted → task'.Meets fun more => wanted (made ++ more) := by
  obtain ⟨calls, answers, quiet', meets⟩ := Session.meets_toRest net.recorded.backend
    net.recorded.fuel (r := ⟨m, task, none⟩) s.target quiet
  exact ⟨_, Network.milestonesIn_of_answers answers, quiet', meets⟩

theorem meets_run_disconnect {α : Type} (net : Network τ) (f : Unit → α) (kill : Bool)
    (s : Server (τ × List Contact)) (quiet : m.Quiet) :
    let ((task, m'), s') := run net.recorded m (.ready (f <$> Session.disconnect kill)) s
    let live? := Session.live? net.recorded.backend net.fuel m s.target
    ∃ made, s'.milestones = s.milestones ++ made.map .called ∧ m'.Quiet ∧
      (task.Meets fun more => ∃ live, (∀ l ∈ live?, l = live) ∧
        made ++ more = Session.endingCalls kill live) ∧
      (task.result?.isSome = true → live?.isSome = true) := by
  obtain ⟨calls, answers, quiet', meets, read⟩ :=
    Session.meets_disconnect net.recorded.backend net.fuel f kill s.target quiet
  exact ⟨_, Network.milestonesIn_of_answers answers, quiet', meets, read⟩

/-- What a request that goes on does to the sessions. -/
structure GoesOn (net : Network τ) (o : Ongoing) (m : SessionMachine)
    (s : Server (τ × List Contact)) (r : Option Response) (s' : Server (τ × List Contact)) :
    Prop where
  session : s'.session = o.place.leaves (run net.recorded m o.task s).1.2 r
  answers : r.isSome = comesToEnd net m o.task s.target
  calls : ∃ made, s'.milestones = s.milestones ++ made.map .called ∧
    ∀ wanted, o.task.Meets wanted → Amounts o.place.isNew? wanted made r s'

theorem Proceeds.milestones {o : Ongoing} {r : Option Response}
    {task : Task SessionState SessionEvent (Except EngineError Json)}
    (proceeds : Proceeds o task m s r s') : s'.milestones = s.milestones :=
  congrArg (fun target : τ × List Contact => milestonesIn target.2) proceeds.target

theorem goesOn_proceed (o : Ongoing) (quiet : m.Quiet) (fits : o.place.Fits s.session)
    (moving : s.closing = none) :
    Yields (proceed net.recorded o m) s fun r s' => GoesOn net o m s r s' ∧ s'.Sound := by
  refine (proceeds_proceed o m fits).mono fun r s' proceeds => ?_
  obtain ⟨made, noted, quiet', meets⟩ := meets_run net o.task s quiet
  refine ⟨⟨proceeds.session, proceeds.ends, made, proceeds.milestones.trans noted, ?_⟩, ?_⟩
  · exact fun wanted met => proceeds.amounts (meets wanted met)
  · exact proceeds.sound moving quiet'

/-- What is done with a session that was replaced: it goes on to its end, with calls as wanted, and
if it gets there, the request begins that waits for that. -/
inductive ClosesOn (net : Network τ) (c : Closing) (wanted : List NativeCall → Prop)
    (s : Server (τ × List Contact)) : Option Response → Server (τ × List Contact) → Prop where
  | underWay {s' : Server (τ × List Contact)} {c' : Closing} {made : List NativeCall} :
      comesToEnd net c.session c.task s.target = false →
      s'.closing = some c' → c'.id = c.id → c'.work = c.work →
      c'.task.Meets (fun more => wanted (made ++ more)) →
      s'.milestones = s.milestones ++ made.map .called →
      s'.session = s.session → s'.ongoing = none → ClosesOn net c wanted s none s'
  | closed {r : Option Response} {u s' : Server (τ × List Contact)} {m : SessionMachine}
      {made : List NativeCall} :
      comesToEnd net c.session c.task s.target = true → wanted made →
      u.milestones = s.milestones ++ made.map .called →
      u.session = some m → s.session = some m →
      GoesOn net ⟨c.id, .current true, .ready c.work.run⟩ m u r s' → s'.closing = none →
      ClosesOn net c wanted s r s'

theorem goesOn_beginWork {id : Json} {work : SessionWork Json} (current : s.session = some m)
    (quiet : m.Quiet) (moving : s.closing = none) :
    Yields (beginWork net.recorded id work) s fun r s' =>
      (GoesOn net ⟨id, .current true, .ready work.run⟩ m s r s' ∧ s'.closing = none) ∧
        s'.Sound := by
  have fits : Place.Fits s.session (.current true) := .current true (current ▸ rfl)
  refine .afterGet ?_
  rw [current]
  let o : Ongoing := ⟨id, .current true, .ready work.run⟩
  have proceeds : Yields (proceed net.recorded o m) s _ := proceeds_proceed o m fits
  have goesOn : Yields (proceed net.recorded o m) s _ := goesOn_proceed o quiet fits moving
  exact ⟨⟨goesOn.1, proceeds.closing.trans moving⟩, goesOn.2⟩

theorem closesOn_close {c : Closing} {wanted : List NativeCall → Prop}
    (worked : let ((task, m'), s') := run net.recorded c.session c.task s
      ∃ made, s'.milestones = s.milestones ++ made.map .called ∧ m'.Quiet ∧
        task.Meets fun more => wanted (made ++ more))
    (current : s.session = some m) (quiet : m.Quiet) (none : s.ongoing = none) :
    Yields (close net.recorded c) s fun r s' => ClosesOn net c wanted s r s' ∧ s'.Sound := by
  have session : (run net.recorded c.session c.task s).2.session = s.session := rfl
  have ongoing : (run net.recorded c.session c.task s).2.ongoing = s.ongoing := rfl
  have outcome : comesToEnd net c.session c.task s.target =
    (run net.recorded c.session c.task s).1.1.result?.isSome := rfl
  refine Yields.bind (P := fun out s₁ => run net.recorded c.session c.task s = (out, s₁)) rfl ?_
  rintro ⟨task, m'⟩ s₁ ran
  rw [ran] at worked session ongoing outcome
  obtain ⟨made, noted, quiet', meets⟩ := worked
  have here : s₁.session = some m := session.trans current
  have none₁ : s₁.ongoing = .none := ongoing.trans none
  dsimp only
  cases ended : task.result? with
  | none =>
      rw [ended] at outcome
      refine .afterModify (.pure ⟨?_, ?_, ?_, ?_⟩)
      · exact .underWay outcome rfl rfl rfl meets noted session none₁
      · intro m₁ same
        cases here.symm.trans same
        exact quiet
      · intro o same
        cases none₁.symm.trans same
      · intro c' same
        cases same
        exact ⟨quiet', Option.isSome_iff_exists.mpr ⟨m, here⟩, none₁⟩
  | some result =>
      rw [ended] at outcome
      have met := meets.of_result? ended
      rw [List.append_nil] at met
      let s₂ : Server (τ × List Contact) := { s₁ with closing := .none }
      refine .afterModify (.mono (goesOn_beginWork (s := s₂) here quiet rfl) ?_)
      rintro r s' ⟨⟨goesOn, moving⟩, sound⟩
      exact ⟨.closed (u := s₂) outcome met noted here current goesOn moving, sound⟩

/-- The calls by which the session is closed that was the current one, if it comes to its end at
once. A process that is live is detached from. -/
inductive Closes (net : Network τ) (t : τ × List Contact) :
    Option SessionMachine → List NativeCall → Prop where
  | nobody : Closes net t none []
  | closed {m : SessionMachine} {live : Bool} : isClosed net m t = true →
      Session.live? net.recorded.backend net.fuel m t = some live →
      Closes net t (some m) (Session.endingCalls false live)

/-- The calls are those by which a session is closed, as far as it can be known whether its process
is live. -/
def Detaches (net : Network τ) (t : τ × List Contact) (m : SessionMachine)
    (calls : List NativeCall) : Prop :=
  ∃ live, (∀ l ∈ Session.live? net.recorded.backend net.fuel m t, l = live) ∧
    calls = Session.endingCalls false live

theorem meets_run_close (net : Network τ) (s : Server (τ × List Contact)) (quiet : m.Quiet) :
    let ((task, m'), s') := run net.recorded m (.ready (Session.disconnect false)) s
    ∃ made, s'.milestones = s.milestones ++ made.map .called ∧ m'.Quiet ∧
      task.Meets fun more => Detaches net s.target m (made ++ more) := by
  have worked := meets_run_disconnect net id false s quiet
  rw [id_map] at worked
  obtain ⟨made, noted, quiet', meets, -⟩ := worked
  exact ⟨made, noted, quiet', meets⟩

theorem closes_of_isClosed {t : τ × List Contact} {made : List NativeCall} (quiet : m.Quiet)
    (closed : isClosed net m t = true) (detaches : Detaches net t m made) :
    Closes net t (some m) made := by
  obtain ⟨live, found, rfl⟩ := detaches
  have read := Session.meets_disconnect net.recorded.backend net.fuel id false t quiet
  rw [id_map] at read
  obtain ⟨-, -, -, -, read⟩ := read
  obtain ⟨l, answer⟩ := Option.isSome_iff_exists.mp (read closed)
  rw [← found l answer]
  exact .closed closed answer

end Recorded

end Server

theorem Request.meets_opening {request : Request} {o : Opening}
    (opens : request.opening? = some o) : Job.Meets o.work.run (· = [o.call]) := by
  cases request with
  | launch agent config request =>
      cases opens
      exact Session.meets_launch request
  | attach agent config pid =>
      cases opens
      exact Session.meets_attach pid
  | capabilities => cases opens
  | disconnect kill => cases opens
  | session request => cases opens

namespace Server

section Recorded

variable {net : Network τ} {s s' : Server (τ × List Contact)} {m : SessionMachine} {id : Json}

/-- The target after an agent was tried to reach. -/
def tried (net : Network τ) (agent : Endpoint) (t : τ × List Contact) : τ × List Contact :=
  (net.recorded.connect agent t).2

/-- What a request does to the sessions of a server. -/
inductive Manages (net : Network τ) (id : Json) (s : Server (τ × List Contact)) :
    Request → Option Response → Server (τ × List Contact) → Prop where
  | capabilities : Manages net id s .capabilities (some ⟨id, .ok serverInfo⟩) s
  | unreachable {request : Request} {o : Opening} {s' : Server (τ × List Contact)} :
      request.opening? = some o → (net.connect o.agent s.target.1).1 = false →
      s'.milestones = s.milestones ++ [.connected o.agent false] → s'.session = s.session →
      s'.ongoing = none →
      Manages net id s request (some ⟨id, .error (.unreachable o.agent)⟩) s'
  /-- The new session takes the place of the one before, which is closed, and is dropped again if
  the request fails. -/
  | opened {request : Request} {o : Opening} {r : Option Response}
      {s₁ s' : Server (τ × List Contact)} {closing made : List NativeCall} :
      request.opening? = some o → (net.connect o.agent s.target.1).1 = true →
      Closes net (tried net o.agent s.target) s.session closing →
      s'.milestones = s.milestones ++ .connected o.agent true :: (closing ++ made).map .called →
      Amounts (some true) (· = [o.call]) made r s' → s'.closing = none →
      r.isSome = comesToEnd net (.start (.start o.config)) (.ready o.work.run) s₁.target →
      s'.session = Place.leaves
        (run net.recorded (.start (.start o.config)) (.ready o.work.run) s₁).1.2 (.current true) r →
      Manages net id s request r s'
  /-- The session before is not at its end, and the request waits for that. -/
  | closing {request : Request} {o : Opening} {m : SessionMachine} {c : Closing}
      {s' : Server (τ × List Contact)} {made : List NativeCall} :
      request.opening? = some o → (net.connect o.agent s.target.1).1 = true →
      s.session = some m → isClosed net m (tried net o.agent s.target) = false →
      s'.closing = some c → c.id = id → c.work = o.work →
      c.task.Meets (fun more => Detaches net (tried net o.agent s.target) m (made ++ more)) →
      s'.milestones = s.milestones ++ .connected o.agent true :: made.map .called →
      s'.session = some (.start (.start o.config)) → s'.ongoing = none →
      Manages net id s request none s'
  | nothingToDisconnect {kill : Bool} : s.session = none →
      Manages net id s (.disconnect kill) (some ⟨id, .error .nothingToDisconnect⟩) s
  /-- The process is ended as was asked for, if it is live. -/
  | disconnected {kill : Bool} {m : SessionMachine} {r : Option Response}
      {s' : Server (τ × List Contact)} {made : List NativeCall} :
      s.session = some m → s'.session = none →
      s'.milestones = s.milestones ++ made.map .called →
      Amounts none (fun calls => ∃ live,
        (∀ l ∈ Session.live? net.recorded.backend net.fuel m s.target, l = live) ∧
          calls = Session.endingCalls kill live) made r s' →
      (r.isSome = true →
        (Session.live? net.recorded.backend net.fuel m s.target).isSome = true) →
      r.isSome = comesToEnd net m (.ready (Session.disconnecting kill)) s.target →
      Manages net id s (.disconnect kill) r s'
  | noSession {request : SessionRequest} : s.session = none →
      Manages net id s (.session request) (some ⟨id, .error .noSession⟩) s
  | within {request : SessionRequest} {m : SessionMachine} {r : Option Response}
      {s' : Server (τ × List Contact)} : s.session = some m →
      GoesOn net ⟨id, .current false, .ready request.work.run⟩ m s r s' →
      Manages net id s (.session request) r s'

/-- A request that has begun in its new session does what it was opened for. -/
theorem GoesOn.opened {request : Request} {o : Opening} {r : Option Response}
    {s₁ : Server (τ × List Contact)} {closing : List NativeCall}
    (goesOn : GoesOn net ⟨id, .current true, .ready o.work.run⟩ (.start (.start o.config)) s₁ r s')
    (opens : request.opening? = some o) (reached : (net.connect o.agent s.target.1).1 = true)
    (closes : Closes net (tried net o.agent s.target) s.session closing)
    (noted : s₁.milestones = s.milestones ++ .connected o.agent true :: closing.map .called)
    (moving : s'.closing = none) : Manages net id s request r s' := by
  obtain ⟨made, later, amounts⟩ := goesOn.calls
  have called := amounts _ (.ready (Request.meets_opening opens))
  refine .opened opens reached closes ?_ called moving goesOn.answers goesOn.session
  rw [later, noted, List.map_append, List.append_assoc, List.cons_append]

/-- The agent is reached, and the new session is in place. -/
structure Connected (net : Network τ) (o : Opening) (s s₁ : Server (τ × List Contact)) : Prop where
  reached : (net.connect o.agent s.target.1).1 = true
  target : s₁.target = tried net o.agent s.target
  milestones : s₁.milestones = s.milestones ++ [.connected o.agent true]
  session : s₁.session = some (.start (.start o.config))
  ongoing : s₁.ongoing = none
  closing : s₁.closing = none

theorem Connected.manages {request : Request} {o : Opening} {s₁ : Server (τ × List Contact)}
    (connected : Connected net o s s₁) (opens : request.opening? = some o) (sound : s.Sound) :
    Yields (match s.session with
      | none => beginWork net.recorded id o.work
      | some previous =>
        close net.recorded ⟨previous, .ready (Session.disconnect false), id, o.work⟩) s₁
      fun r s' => Manages net id s request r s' ∧ s'.Sound := by
  obtain ⟨reached, target, noted, session, none, moving⟩ := connected
  have quiet : Machine.Quiet (.start (.start o.config) : SessionMachine) :=
    Machine.quiet_start _
  have later {calls : List NativeCall} {s' : Server (τ × List Contact)}
      (called : s'.milestones = s₁.milestones ++ calls.map .called) :
      s'.milestones = s.milestones ++ .connected o.agent true :: calls.map .called := by
    rw [called, noted, List.append_assoc]
    rfl
  cases previous : s.session with
  | none =>
      refine .mono (goesOn_beginWork session quiet moving) ?_
      rintro r s' ⟨⟨goesOn, moving'⟩, sound'⟩
      have closes : Closes net (tried net o.agent s.target) s.session [] := by
        rw [previous]
        exact .nobody
      exact ⟨goesOn.opened opens reached closes noted moving', sound'⟩
  | some m =>
      have quiet' : m.Quiet := sound.session m previous
      refine .mono (closesOn_close (meets_run_close net s₁ quiet') session quiet none) ?_
      rintro r s' ⟨closesOn, sound'⟩
      rw [target] at closesOn
      refine ⟨?_, sound'⟩
      cases closesOn with
      | underWay still closing same work left called session' none' =>
          rw [target] at still
          exact .closing opens reached previous still closing same work left (later called)
            (session'.trans session) none'
      | closed ended detaches called here current goesOn moving' =>
          cases session.symm.trans current
          rw [target] at ended
          refine goesOn.opened opens reached ?_ (later called) moving'
          rw [previous]
          exact closes_of_isClosed quiet' ended detaches

theorem manages_connect (request : Request) {o : Opening} (opens : request.opening? = some o)
    (sound : s.Sound) (none : s.ongoing = none) (moving : s.closing = .none) :
    Yields (connect net.recorded id o.agent o.config o.work) s fun r s' =>
      Manages net id s request r s' ∧ s'.Sound := by
  have noted (reached : Bool) (answer : (net.connect o.agent s.target.1).1 = reached) :
      milestonesIn (tried net o.agent s.target).2 =
        s.milestones ++ [.connected o.agent reached] := by
    have record : (tried net o.agent s.target).2 =
      s.target.2 ++ [.connected o.agent (net.connect o.agent s.target.1).1] := rfl
    rw [record, answer, milestonesIn, List.filter_append]
    rfl
  have answer : (net.recorded.connect o.agent s.target).1 = (net.connect o.agent s.target.1).1 :=
    rfl
  refine .afterGet (.afterSet ?_)
  rw [answer]
  cases reached : (net.connect o.agent s.target.1).1 with
  | false =>
      refine ⟨.unreachable opens reached (noted false reached) rfl none, ?_⟩
      exact ⟨sound.session, sound.ongoing, sound.closing⟩
  | true =>
      rw [Bool.not_true, if_neg Bool.false_ne_true]
      refine .afterModify (Connected.manages ?_ opens sound)
      exact ⟨reached, rfl, noted true reached, rfl, none, moving⟩

theorem manages_disconnect (kill : Bool) (sound : s.Sound) (moving : s.closing = none) :
    Yields (disconnect net.recorded id kill) s fun r s' =>
      Manages net id s (.disconnect kill) r s' ∧ s'.Sound := by
  refine .afterGet ?_
  split
  · next current => exact .pure ⟨.nothingToDisconnect current, sound⟩
  · next m current =>
    have quiet := sound.session m current
    let left : Server (τ × List Contact) := { s with session := none }
    let o : Ongoing := ⟨id, .left m, .ready (Session.disconnecting kill)⟩
    have fits : o.place.Fits left.session := .left quiet rfl
    refine .afterModify ((proceeds_proceed o m fits).mono fun r s' proceeds => ?_)
    obtain ⟨made, noted, quiet', meets, read⟩ := meets_run_disconnect net
      (fun _ => (.ok doneJson : Except EngineError Json)) kill left quiet
    refine ⟨.disconnected current ?_ (proceeds.milestones.trans noted) (proceeds.amounts meets) ?_
      proceeds.ends, proceeds.sound moving quiet'⟩
    · refine proceeds.session.trans ?_
      unfold Place.leaves
      rfl
    · exact fun answered => read (proceeds.ends.symm.trans answered)

theorem manages_perform (request : Request) (sound : s.Sound) (none : s.ongoing = none)
    (moving : s.closing = .none) :
    Yields (perform net.recorded id request) s fun r s' =>
      Manages net id s request r s' ∧ s'.Sound := by
  cases request with
  | capabilities => exact .pure ⟨.capabilities, sound⟩
  | launch agent config request =>
      exact manages_connect (.launch agent config request) rfl sound none moving
  | attach agent config pid =>
      exact manages_connect (.attach agent config pid) rfl sound none moving
  | disconnect kill => exact manages_disconnect kill sound moving
  | session request =>
      refine .afterGet ?_
      split
      · next current => exact .pure ⟨.noSession current, sound⟩
      · next m current =>
        have fits : Place.Fits s.session (.current false) := .current false (current ▸ rfl)
        refine (goesOn_proceed _ (sound.session m current) fits moving).mono fun r s' goesOn => ?_
        exact ⟨.within current goesOn.1, goesOn.2⟩

/-! ## Histories -/

theorem Sound.exists_session {o : Ongoing} (sound : s.Sound) (ongoing : s.ongoing = some o) :
    ∃ m, o.place.session? s.session = some m ∧ m.Quiet := by
  cases fits : o.place with
  | left m =>
      have fits := fits ▸ sound.ongoing o ongoing
      cases fits with
      | left quiet _ => exact ⟨m, rfl, quiet⟩
  | current isNew =>
      have fits := fits ▸ sound.ongoing o ongoing
      cases fits with
      | current _ is =>
          obtain ⟨m, current⟩ := Option.isSome_iff_exists.mp is
          exact ⟨m, current, sound.session m current⟩

/-- Notifications alone neither change which session there is nor begin or end anything. -/
structure Unmoved (s s' : Server (τ × List Contact)) : Prop where
  session : s'.session.isSome = s.session.isSome
  milestones : s'.milestones = s.milestones
  ongoing : s'.ongoing = none
  closing : s'.closing = s.closing

theorem unmoved_notify (net : Network τ) (events : List NativeEvent) (sound : s.Sound)
    (none : s.ongoing = none) :
    Yields (notify net.recorded events) s fun answers s' =>
      answers = [] ∧ Unmoved s s' ∧ s'.Sound := by
  refine .afterGet ?_
  rw [none]
  cases current : s.session with
  | none => exact .pure ⟨rfl, ⟨rfl, rfl, none, rfl⟩, sound⟩
  | some m =>
      have quiet : (m.raise events).Quiet := sound.session m current
      obtain ⟨made, noted, quiet', meets⟩ := meets_run net (.finished ()) s quiet
      obtain ⟨more, nothing⟩ := Session.exists_of_meets m.state
        (meets (· = []) ⟨_, .finished (), .done rfl⟩)
      rw [(List.append_eq_nil_iff.mp nothing).1, List.map_nil, List.append_nil] at noted
      refine ⟨rfl, ⟨?_, noted, none, rfl⟩, fun m' same => ?_, fun o ongoing => ?_, ?_⟩
      · rw [current]
        rfl
      · cases same
        exact quiet'
      · exact absurd (none.symm.trans ongoing) (Option.some_ne_none o).symm
      · intro c closing
        exact ⟨(sound.closing c closing).1, rfl, none⟩

theorem Sound.closesOn {c : Closing} {wanted : List NativeCall → Prop} (sound : s.Sound)
    (closing : s.closing = some c) (events : List NativeEvent) (meets : c.task.Meets wanted) :
    Yields (close net.recorded { c with session := c.session.raise events }) s fun r s' =>
      ClosesOn net { c with session := c.session.raise events } wanted s r s' ∧ s'.Sound := by
  obtain ⟨quiet, current, none⟩ := sound.closing c closing
  obtain ⟨m, here⟩ := Option.isSome_iff_exists.mp current
  have quiet : (c.session.raise events).Quiet := quiet
  refine closesOn_close ?_ here (sound.session m here) none
  obtain ⟨made, noted, quiet', meets'⟩ := meets_run net c.task s quiet
  exact ⟨made, noted, quiet', meets' wanted meets⟩

theorem invariant_sound (net : Network τ) : Invariant net.recorded Sound where
  waiting _ _ _ sound := ⟨sound.session, sound.ongoing, sound.closing⟩
  performed s _ request idle sound := by
    obtain ⟨none, moving⟩ := isIdle_iff.mp idle
    exact (manages_perform request sound none moving).mono fun _ _ managed => managed.2
  goesOn s o m events ongoing here sound := by
    obtain ⟨m', same, quiet⟩ := sound.exists_session ongoing
    cases same.symm.trans here
    have fits : o.place.Fits s.session := sound.ongoing o ongoing
    have moving := sound.not_closing ongoing
    exact (goesOn_proceed (m := m.raise events) o quiet fits moving).mono
      fun _ _ goesOn => goesOn.2
  notified s events none sound :=
    (unmoved_notify net events sound none).mono fun _ _ unmoved => unmoved.2.2
  closes s c events closing sound :=
    (sound.closesOn closing events c.task.meets_true).mono fun _ _ closesOn => closesOn.2

/-- Under a target that only answers, the process of a second attach takes the place of that of the
first, which runs on. -/
example :
    let answer (call : NativeCall) : call.Reply :=
      match call with
      | .attach _ | .detach | .terminate => .ok ()
      | _ => default
    let net : Network Unit := ⟨fun _ t => (true, t), ⟨fun call t => (answer call, [], t), true⟩, 40⟩
    let agent : Endpoint := ⟨"127.0.0.1", 4711⟩
    let s := (do
      let _ ← perform net.recorded .null (.attach agent {} 7)
      let _ ← perform net.recorded .null (.attach agent {} 8)
      perform net.recorded .null (.disconnect true) : Serving _ _) (start ((), []))
    net.backend.Subsides (fun _ => 0) ∧
      s.2.milestones = [.connected agent true, .called (.attach 7), .connected agent true,
        .called .detach, .called (.attach 8), .called .terminate] := by
  constructor
  · intro call t
    exact le_rfl
  · rfl

end Recorded

end Server

end ManagedDebugger
