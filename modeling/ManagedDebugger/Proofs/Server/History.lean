import ManagedDebugger.Server

/-!
# What reaches a server

Lines of the front end and notifications of the target reach a server in any order, and at any time
the front end is told the events that wait for it. What a server does is judged by its result and by
the state that it leaves, with a rule for each way in which that is put together.
A property that every request keeps is kept over a whole history.
-/

namespace ManagedDebugger

/-- What may happen to a server. -/
inductive Occurrence where
  | line (text : String)
  | notified (events : List NativeEvent)
  /-- The target notifies the session that was replaced. -/
  | notifiedReplaced (events : List NativeEvent)
  /-- The front end is told the events. -/
  | told

/-- The lines among what happened. -/
def Occurrence.lines (occurrences : List Occurrence) : List String :=
  occurrences.filterMap fun
    | .line text => some text
    | .notified _ | .notifiedReplaced _ | .told => none

/-- What it takes to open a session for a request. -/
structure Opening where
  agent : Endpoint
  config : SessionConfig
  /-- The call that begins the work on a process. -/
  call : NativeCall
  work : SessionWork Json

def Request.opening? : Request → Option Opening
  | launch agent config request =>
    some ⟨agent, config, .launch request, pidJson <$> Session.launch request⟩
  | attach agent config pid =>
    some ⟨agent, config, .attach pid, (fun _ => pidJson pid) <$> Session.attach pid⟩
  | capabilities | disconnect _ | session _ => none

/-- What a session has to do for a disconnect. -/
def Session.disconnecting (kill : Bool) : SessionJob (Except EngineError Json) :=
  (fun _ => .ok doneJson) <$> Session.disconnect kill

/-- Whether a request opens the current session, if it works on that. -/
def Place.isNew? : Place → Option Bool
  | .current isNew => some isNew
  | .left _ => none

/-- The session that a request works on. -/
def Place.session? (session : Option SessionMachine) : Place → Option SessionMachine
  | .current _ => session
  | .left m => some m

namespace Server

variable {τ : Type}

def occur (net : Network τ) : Occurrence → Serving τ (List Response)
  | .line text => do return (← receive net text).toList
  | .notified events => notify net events
  | .notifiedReplaced events => notifyReplaced net events
  | .told => do
    let _ ← takeEvents
    return []

/-- The answers to everything that happens. -/
def live (net : Network τ) : List Occurrence → Serving τ (List Response)
  | [] => return []
  | o :: rest => do
    let now ← occur net o
    let later ← live net rest
    return now ++ later

variable {α β : Type} {s : Server τ}

theorem isIdle_iff : s.isIdle = true ↔ s.ongoing = none ∧ s.closing = none := by simp [isIdle]

/-- The result and the state that is left are as wanted. -/
def Yields (p : Serving τ α) (s : Server τ) (Q : α → Server τ → Prop) : Prop := Q (p s).1 (p s).2

namespace Yields

variable {p : Serving τ α} {f : α → Serving τ β} {P : α → Server τ → Prop}
  {Q : β → Server τ → Prop}

theorem pure {b : β} (holds : Q b s) : Yields (Pure.pure b) s Q := holds

theorem bind (first : Yields p s P) (next : ∀ a s', P a s' → Yields (f a) s' Q) :
    Yields (p >>= f) s Q :=
  next _ _ first

theorem map {g : α → β} (yields : Yields p s fun a s' => Q (g a) s') :
    Yields (g <$> p) s Q := yields

theorem mono {P' : α → Server τ → Prop} (yields : Yields p s P)
    (implied : ∀ a s', P a s' → P' a s') : Yields p s P' :=
  implied _ _ yields

theorem of_eq {q : Serving τ α} (same : p s = q s) (yields : Yields q s P) : Yields p s P := by
  rw [Yields, same]
  exact yields

theorem afterGet {f : Server τ → Serving τ β} (next : Yields (f s) s Q) :
    Yields (get >>= f) s Q := next

theorem afterModify {g : Server τ → Server τ} {f : PUnit → Serving τ β}
    (next : Yields (f ⟨⟩) (g s) Q) : Yields (modify g >>= f) s Q := next

theorem afterSet {s' : Server τ} {f : PUnit → Serving τ β} (next : Yields (f ⟨⟩) s' Q) :
    Yields (set s' >>= f) s Q := next

end Yields

/-! ## Lines that have to wait -/

variable {net : Network τ}

/-- The same server, with lines that came after all that it knows of. -/
def withUnread (s : Server τ) (lines : List String) : Server τ :=
  { s with unread := s.unread ++ lines }

theorem withUnread_nil (s : Server τ) : s.withUnread [] = s :=
  congrArg (fun unread => { s with unread }) (List.append_nil s.unread)

theorem withUnread_withUnread (s : Server τ) (lines more : List String) :
    (s.withUnread lines).withUnread more = s.withUnread (lines ++ more) :=
  congrArg (fun unread => { s with unread }) (List.append_assoc s.unread lines more)

theorem proceed_withUnread (o : Ongoing) (m : SessionMachine) (lines : List String) :
    proceed net o m (s.withUnread lines) =
      ((proceed net o m s).1, (proceed net o m s).2.withUnread lines) := by
  obtain ⟨id, place, task⟩ := o
  have ran : run net m task (s.withUnread lines) =
      ((run net m task s).1, (run net m task s).2.withUnread lines) := rfl
  unfold proceed
  dsimp only [bind, StateT.bind]
  rw [ran]
  obtain ⟨⟨task', m'⟩, s₁⟩ := run net m task s
  dsimp only
  cases task'.result? with
  | none => cases place <;> rfl
  | some result =>
      cases place with
      | left previous => rfl
      | current isNew => cases isNew <;> cases result <;> rfl

/-- A request that is not answered is under way. -/
theorem busy_proceed (o : Ongoing) (m : SessionMachine) :
    Yields (proceed net o m) s fun r s' => r = none → s'.isIdle = false := by
  obtain ⟨id, place, task⟩ := o
  refine Yields.bind (P := fun _ _ => True) trivial fun (task', m') s₁ _ => ?_
  dsimp only
  cases task'.result? with
  | some result => exact fun waits => absurd waits (Option.some_ne_none _)
  | none => cases place <;> exact fun _ => rfl

theorem beginWork_withUnread (id : Json) (work : SessionWork Json) (lines : List String) :
    beginWork net id work (s.withUnread lines) =
      ((beginWork net id work s).1, (beginWork net id work s).2.withUnread lines) := by
  obtain ⟨target, session, ongoing, closing, unread, told⟩ := s
  cases session with
  | none => rfl
  | some m => exact proceed_withUnread _ m lines

theorem close_withUnread (c : Closing) (lines : List String) :
    close net c (s.withUnread lines) =
      ((close net c s).1, (close net c s).2.withUnread lines) := by
  have ran : run net c.session c.task (s.withUnread lines) =
      ((run net c.session c.task s).1, (run net c.session c.task s).2.withUnread lines) := rfl
  unfold close
  dsimp only [bind, StateT.bind]
  rw [ran]
  obtain ⟨⟨task, m⟩, s₁⟩ := run net c.session c.task s
  dsimp only
  cases task.result? with
  | none => rfl
  | some result => exact beginWork_withUnread (s := { s₁ with closing := none }) c.id c.work lines

/-- A session that does not come to its end is on its way to that, and a request that begins has a
session to work on. -/
theorem busy_close (c : Closing) (current : s.session.isSome = true) :
    Yields (close net c) s fun r s' => r = none → s'.isIdle = false := by
  refine Yields.bind (P := fun _ s₁ => s₁.session.isSome = true) current ?_
  rintro ⟨task, m⟩ s₁ current
  dsimp only
  cases task.result? with
  | none => exact .afterModify (.pure fun _ => by simp [isIdle])
  | some result =>
      obtain ⟨m', here⟩ := Option.isSome_iff_exists.mp current
      refine .afterModify (.afterGet ?_)
      dsimp only
      rw [here]
      exact busy_proceed _ m'

theorem receive_of_busy (busy : s.isIdle = false) (line : String) :
    receive net line s = (none, s.withUnread [line]) := by
  refine Yields.afterGet (f := fun s' => ite (!s'.isIdle) _ _)
    (Q := fun r s' => (r, s') = (none, s.withUnread [line])) ?_
  rw [busy]
  rfl

theorem serve_of_busy (busy : s.isIdle = false) (lines : List String) :
    serve net lines s = ([], s.withUnread lines) := by
  have kept : lines.mapM (receive net) s = (lines.map fun _ => none, s.withUnread lines) := by
    induction lines generalizing s with
    | nil =>
        rw [withUnread_nil]
        rfl
    | cons line rest inductionHypothesis =>
        have later := inductionHypothesis (s := s.withUnread [line]) busy
        rw [List.mapM_cons]
        dsimp only [bind, StateT.bind]
        rw [receive_of_busy busy]
        dsimp only
        rw [later, withUnread_withUnread]
        rfl
  have none (lines : List String) :
      (lines.map fun _ => (none : Option Response)).filterMap id = [] := by simp
  change ((lines.mapM (receive net) s).1.filterMap id, (lines.mapM (receive net) s).2) = _
  rw [kept, none]

theorem serve_cons (line : String) (rest : List String) :
    serve net (line :: rest) = do
      let r ← receive net line
      let answers ← serve net rest
      return r.toList ++ answers := by
  unfold serve
  simp only [List.mapM_cons, bind_assoc, pure_bind]
  refine bind_congr fun r => bind_congr fun rs => ?_
  cases r <;> rfl

theorem serve_append (lines more : List String) :
    (serve net (lines ++ more) : Serving τ _) = do
      let now ← serve net lines
      let later ← serve net more
      return now ++ later := by
  simp [serve]

theorem catchUp_withUnread (lines : List String) :
    catchUp net (s.withUnread lines) =
      (do
        let now ← catchUp net
        let later ← serve net lines
        return now ++ later) s := by
  change serve net (s.unread ++ lines) { s with unread := [] } = _
  rw [serve_append]
  rfl

theorem notify_of_ongoing {o : Ongoing} (ongoing : s.ongoing = some o) (events : List NativeEvent) :
    notify net events s =
      (match o.place.session? s.session with
        | none => return []
        | some m => answering net (proceed net o (m.raise events))) s := by
  obtain ⟨target, session, _, closing, unread, told⟩ := s
  cases ongoing
  rfl

theorem notifyReplaced_of_closing {c : Closing} (closing : s.closing = some c)
    (events : List NativeEvent) :
    notifyReplaced net events s =
      answering net (close net { c with session := c.session.raise events }) s := by
  obtain ⟨target, session, ongoing, _, unread, told⟩ := s
  cases closing
  rfl

/-- What comes to an answer, unless the server stays at work, and takes no notice of the lines that
wait for it. -/
theorem answering_withUnread {p : Serving τ (Option Response)} (lines : List String)
    (same : p (s.withUnread lines) = ((p s).1, (p s).2.withUnread lines))
    (busy : Yields p s fun r s' => r = none → s'.isIdle = false) :
    answering net p (s.withUnread lines) =
      (do
        let now ← answering net p
        let later ← serve net lines
        return now ++ later) s := by
  unfold answering
  unfold Yields at busy
  dsimp only [bind, StateT.bind]
  rw [same]
  generalize p s = out at busy ⊢
  obtain ⟨r, s₁⟩ := out
  cases r with
  | none =>
      have kept : serve net lines s₁ = _ := serve_of_busy (busy rfl) lines
      exact (congrArg (fun out => ([] ++ out.1, out.2)) kept).symm
  | some r =>
      dsimp only [bind, StateT.bind]
      rw [catchUp_withUnread]
      rfl

theorem serve_bind_of_busy (busy : s.isIdle = false) (lines : List String)
    (p : Serving τ (List Response)) :
    (do
      let _ ← serve net lines
      p) s = p (s.withUnread lines) := by
  dsimp only [bind, StateT.bind]
  rw [serve_of_busy busy]

/-- A line that comes while a request is under way is as one that comes after the notification. -/
theorem notify_afterLines {o : Ongoing} (ongoing : s.ongoing = some o) (lines : List String)
    (events : List NativeEvent) :
    (do
      let _ ← serve net lines
      notify net events) s =
    (do
      let now ← notify net events
      let later ← serve net lines
      return now ++ later) s := by
  have busy : s.isIdle = false := by simp [isIdle, ongoing]
  rw [serve_bind_of_busy busy, notify_of_ongoing (s := s.withUnread lines) ongoing]
  dsimp only [bind, StateT.bind]
  rw [notify_of_ongoing ongoing]
  change (match o.place.session? s.session with | none => _ | some m => _ : Serving τ _) _ = _
  cases o.place.session? s.session with
  | none => exact (congrArg (fun out => ([] ++ out.1, out.2)) (serve_of_busy busy lines)).symm
  | some m => exact answering_withUnread lines (proceed_withUnread o _ lines) (busy_proceed o _)

/-- So is one that comes while a session is on its way to its end. -/
theorem notifyReplaced_afterLines {c : Closing} (closing : s.closing = some c)
    (current : s.session.isSome = true) (lines : List String) (events : List NativeEvent) :
    (do
      let _ ← serve net lines
      notifyReplaced net events) s =
    (do
      let now ← notifyReplaced net events
      let later ← serve net lines
      return now ++ later) s := by
  have busy : s.isIdle = false := by simp [isIdle, closing]
  rw [serve_bind_of_busy busy, notifyReplaced_of_closing (s := s.withUnread lines) closing]
  dsimp only [bind, StateT.bind]
  rw [notifyReplaced_of_closing closing]
  exact answering_withUnread lines (close_withUnread _ lines) (busy_close _ current)

/-! ## Invariants -/

/-- A property that a server keeps whatever its requests do. -/
structure Invariant (net : Network τ) (holds : Server τ → Prop) : Prop where
  waiting : ∀ s unread events, holds s → holds { s with unread, events }
  performed : ∀ s id request, s.isIdle = true → holds s →
    Yields (perform net id request) s fun _ => holds
  goesOn : ∀ s o m events, s.ongoing = some o → o.place.session? s.session = some m → holds s →
    Yields (proceed net o (m.raise events)) s fun _ => holds
  notified : ∀ s events, s.ongoing = none → holds s → Yields (notify net events) s fun _ => holds
  closes : ∀ s c events, s.closing = some c → holds s →
    Yields (close net { c with session := c.session.raise events }) s fun _ => holds

namespace Invariant

variable {holds : Server τ → Prop} (invariant : Invariant net holds)

include invariant

theorem receive (line : String) (now : holds s) :
    Yields (receive net line) s fun _ => holds := by
  refine .afterGet ?_
  split
  · exact .afterModify (.pure (invariant.waiting s _ s.events now))
  · next idle =>
    split
    · exact .pure now
    · unfold respond
      split
      · exact .pure now
      · split
        · exact .pure now
        · split
          · exact .pure now
          · exact invariant.performed s _ _ (by simpa using idle) now

theorem serve (lines : List String) (now : holds s) :
    Yields (serve net lines) s fun _ => holds := by
  induction lines generalizing s with
  | nil => exact .pure now
  | cons line rest inductionHypothesis =>
      rw [serve_cons]
      refine (invariant.receive line now).bind fun _ s₁ now => ?_
      exact (inductionHypothesis now).bind fun _ s₂ now => .pure now

theorem answering {p : Serving τ (Option Response)} (yields : Yields p s fun _ => holds) :
    Yields (answering net p) s fun _ => holds := by
  refine yields.bind fun r s₁ now => ?_
  cases r with
  | none => exact .pure now
  | some r =>
      have caughtUp : Yields (catchUp net) s₁ fun _ => holds :=
        .afterGet (.afterModify (invariant.serve _ (invariant.waiting s₁ _ s₁.events now)))
      exact caughtUp.bind fun _ s₂ now => .pure now

theorem notify (events : List NativeEvent) (now : holds s) :
    Yields (notify net events) s fun _ => holds := by
  cases ongoing : s.ongoing with
  | none => exact invariant.notified s events ongoing now
  | some o =>
      refine .of_eq (notify_of_ongoing ongoing events) ?_
      cases here : o.place.session? s.session with
      | none => exact .pure now
      | some m => exact invariant.answering (invariant.goesOn s o m events ongoing here now)

theorem notifyReplaced (events : List NativeEvent) (now : holds s) :
    Yields (notifyReplaced net events) s fun _ => holds := by
  cases closing : s.closing with
  | none =>
      refine .afterGet ?_
      rw [closing]
      exact .pure now
  | some c =>
      refine .of_eq (notifyReplaced_of_closing closing events) ?_
      exact invariant.answering (invariant.closes s c events closing now)

theorem live (occurrences : List Occurrence) (now : holds s) :
    Yields (live net occurrences) s fun _ => holds := by
  induction occurrences generalizing s with
  | nil => exact .pure now
  | cons o rest inductionHypothesis =>
      have next : Yields (occur net o) s fun _ => holds := by
        cases o with
        | line text => exact (invariant.receive text now).bind fun _ s₁ now => .pure now
        | notified events => exact invariant.notify events now
        | notifiedReplaced events => exact invariant.notifyReplaced events now
        | told => exact invariant.waiting s s.unread [] now
      refine next.bind fun _ s₁ now => ?_
      exact (inductionHypothesis now).bind fun _ s₂ now => .pure now

end Invariant

end Server

end ManagedDebugger
