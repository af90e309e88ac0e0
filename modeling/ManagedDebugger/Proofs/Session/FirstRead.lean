import ManagedDebugger.Proofs.Session.Moves

/-!
# What a request finds that begins by reading the state

Until a request has its first turn, the machine does not depend on it. So all requests that begin by
reading the state find the same one, and what they find can be asked for in advance.
-/

namespace ManagedDebugger

variable {σ ε α β τ : Type}

namespace Run

/-- Another request in the place of this one. -/
def withRequest (r : Run σ ε α) (task : Task σ ε β) : Run σ ε β := ⟨r.machine, task, r.turn⟩

end Run

/-- A step after which every run is another one. -/
def Step.map (f : Run σ ε α → Run σ ε β) : Step σ ε α → Step σ ε β
  | internal r => .internal (f r)
  | call c next => .call c fun reply => f (next reply)
  | rest => .rest

namespace Run

variable {handle : Option (NativeEvent → Job σ ε Unit)} {r : Run σ ε α} {p : Job σ ε α}

theorem resume?_withRequest (ready : r.request = .ready p) (q : Job σ ε β) (owner : TaskId) :
    (r.withRequest (.ready q)).resume? handle owner =
      (r.resume? handle owner).map (·.withRequest (.ready q)) := by
  obtain ⟨m, request, turn⟩ := r
  subst ready
  cases owner with
  | request => rfl
  | dispatcher =>
      unfold resume? resumeDispatcher? withRequest
      dsimp only
      cases m.wake? .dispatcher m.dispatcher with
      | some woken => rfl
      | none =>
          dsimp only
          split
          · rfl
          · rfl

theorem exists_resume?_request (handle : Option (NativeEvent → Job σ ε Unit))
    (ready : r.request = .ready p) : ∃ r', r.resume? handle .request = some r' := by
  unfold resume? resumeRequest?
  rw [ready]
  exact ⟨_, rfl⟩

theorem routeNext_withRequest (q : Job σ ε β) (event : NativeEvent) (rest : List NativeEvent) :
    (r.withRequest (.ready q)).routeNext event rest =
      (r.routeNext event rest).map (·.withRequest (.ready q)) := by
  unfold routeNext withRequest
  dsimp only
  split
  · rfl
  · rfl
  · rfl

theorem choose_withRequest (ready : r.request = .ready p) (q : Job σ ε β) (first : TaskId) :
    (r.withRequest (.ready q)).choose handle first =
      (r.choose handle first).map (·.withRequest (.ready q)) := by
  unfold choose
  rw [show (r.withRequest (.ready q)).machine.inbox = r.machine.inbox from rfl]
  cases r.machine.inbox with
  | cons event rest => exact routeNext_withRequest q event rest
  | nil =>
      dsimp only
      rw [resume?_withRequest ready, resume?_withRequest ready]
      cases resumed : r.resume? handle first with
      | some r' => rfl
      | none =>
          -- so it is the request that comes second, and that can go on
          cases first with
          | request =>
              obtain ⟨r', ready⟩ := exists_resume?_request handle ready
              rw [ready] at resumed
              cases resumed
          | dispatcher =>
              obtain ⟨r', ready⟩ := exists_resume?_request handle ready
              rw [TaskId.other, ready]
              rfl

theorem advance_withRequest (q : Job σ ε β) :
    (r.withRequest (.ready q)).advance .dispatcher r.machine.dispatcher
        (fun m t => putDispatcher m t (r.withRequest (.ready q))) =
      (r.advance .dispatcher r.machine.dispatcher fun m t => putDispatcher m t r).map
        (·.withRequest (.ready q)) := by
  unfold advance withRequest
  dsimp only
  split
  · rfl
  · rfl
  · rfl
  · rfl

/-- As long as it is not its turn, a step does not depend on the request. -/
theorem step_withRequest (ready : r.request = .ready p) (other : r.turn ≠ some .request)
    (q : Job σ ε β) (first : TaskId) :
    (r.withRequest (.ready q)).step handle first =
      (r.step handle first).map (·.withRequest (.ready q)) := by
  unfold step
  rw [show (r.withRequest (.ready q)).turn = r.turn from rfl]
  cases turn : r.turn with
  | none => exact choose_withRequest ready q first
  | some owner =>
      cases owner with
      | request => exact absurd turn other
      | dispatcher => exact advance_withRequest q

theorem passTurn_withRequest (ready : r.request = .ready p) (q : Job σ ε β) :
    (r.withRequest (.ready q)).passTurn handle = (r.passTurn handle).withRequest (.ready q) := by
  unfold passTurn
  rw [show (r.withRequest (.ready q)).turn = r.turn from rfl]
  cases r.turn with
  | none => rfl
  | some owner =>
      dsimp only
      rw [resume?_withRequest ready]
      cases r.resume? handle owner.other with
      | some r' => rfl
      | none => rfl

end Run

/-- A task that begins by reading the state. -/
abbrev Job.reading (next : σ → Job σ ε α) : Job σ ε α := .perform (.update fun s => s) next

namespace Run

variable {backend : Backend τ} {handle : Option (NativeEvent → Job σ ε Unit)}

theorem toRest_add (first second : Nat) (r : Run σ ε α) (t : τ) :
    r.toRest backend handle (first + second) t =
      (r.toRest backend handle first t).1.toRest backend handle second
        (r.toRest backend handle first t).2 := by
  induction first generalizing r t with
  | zero => rw [Nat.zero_add, toRest]
  | succ first inductionHypothesis =>
      rw [Nat.succ_add, toRest, toRest]
      cases stepped : r.step handle backend.first with
      | internal r' => exact inductionHypothesis r' t
      | call call next => exact inductionHypothesis _ _
      | rest =>
          cases second with
          | zero => rfl
          | succ second => rw [toRest, stepped]

/-- Requests that begin by reading the state come to that at the same point, with the same state,
or all of them still wait for it in the end. -/
inductive ReadsAlike (backend : Backend τ) (handle : Option (NativeEvent → Job σ ε Unit))
    (fuel : Nat) (m : Machine σ ε) (turn : Option TaskId) (t : τ) : Prop where
  | waits (m' : Machine σ ε) (turn' : Option TaskId) (t' : τ) :
      (∀ {β : Type} (next : σ → Job σ ε β),
        toRest backend handle fuel ⟨m, .ready (.reading next), turn⟩ t =
          (⟨m', .ready (.reading next), turn'⟩, t')) →
      ReadsAlike backend handle fuel m turn t
  | reads (before after : Nat) (m' : Machine σ ε) (t' : τ) : before + after = fuel →
      (∀ {β : Type} (next : σ → Job σ ε β),
        toRest backend handle before ⟨m, .ready (.reading next), turn⟩ t =
          (⟨m', .ready (next m'.state), some .request⟩, t')) →
      ReadsAlike backend handle fuel m turn t

theorem ReadsAlike.head {fuel : Nat} {m m₁ : Machine σ ε} {turn turn₁ : Option TaskId} {t t₁ : τ}
    (leads : ∀ {β : Type} (next : σ → Job σ ε β) (n : Nat),
      toRest backend handle (n + 1) ⟨m, .ready (.reading next), turn⟩ t =
        toRest backend handle n ⟨m₁, .ready (.reading next), turn₁⟩ t₁)
    (alike : ReadsAlike backend handle fuel m₁ turn₁ t₁) :
    ReadsAlike backend handle (fuel + 1) m turn t := by
  cases alike with
  | waits m' turn' t' rests =>
      exact .waits m' turn' t' fun next => (leads next fuel).trans (rests next)
  | reads before after m' t' whole reads =>
      refine .reads (before + 1) after m' t' (by omega) fun next => ?_
      exact (leads next before).trans (reads next)

theorem readsAlike (backend : Backend τ) (handle : Option (NativeEvent → Job σ ε Unit))
    (fuel : Nat) (m : Machine σ ε) (turn : Option TaskId) (t : τ) :
    ReadsAlike backend handle fuel m turn t := by
  induction fuel generalizing m turn t with
  | zero => exact .waits m turn t fun next => rfl
  | succ fuel inductionHypothesis =>
      by_cases own : turn = some .request
      · subst own
        exact .reads 1 fuel m t (Nat.add_comm 1 fuel) fun next => rfl
      let asking : Run σ ε σ := ⟨m, .ready (.reading .done), turn⟩
      have stepped {β : Type} (next : σ → Job σ ε β) :
          step handle backend.first ⟨m, .ready (.reading next), turn⟩ =
            (asking.step handle backend.first).map (·.withRequest (.ready (.reading next))) :=
        step_withRequest (r := asking) rfl own (.reading next) backend.first
      cases found : asking.step handle backend.first with
      | internal r =>
          refine ReadsAlike.head (fun next n => ?_) (inductionHypothesis r.machine r.turn t)
          rw [toRest, stepped, found]
          rfl
      | call call next =>
          let r := next (backend.answer call t).1
          have ready : r.request = .ready (.reading .done) := by
            have same : asking.step handle backend.first = _ := stepped .done
            rw [found] at same
            exact congrArg Run.request (congrFun (eq_of_heq (Step.call.inj same).2) _)
          let r' := if backend.isRemote then r.passTurn handle else r
          refine ReadsAlike.head (fun next n => ?_) (inductionHypothesis
            (r'.machine.raise (backend.answer call t).2.1) r'.turn (backend.answer call t).2.2)
          rw [toRest, stepped, found]
          dsimp only [Step.map]
          rw [passTurn_withRequest ready]
          cases remote : backend.isRemote with
          | true => simp only [r', remote, if_true]; rfl
          | false => simp only [r', remote]; rfl
      | rest =>
          refine .waits m turn t fun next => ?_
          rw [toRest, stepped, found]
          rfl

/-- A request that is answered stays so. -/
theorem Passes.finished {possible : Exchange evalEffect → Prop} {r r' : Run σ ε α} {a : α}
    {seen : Trace ε} (passes : Passes possible handle r seen r')
    (answered : r.request = .finished a) : r'.request = .finished a := by
  induction passes with
  | refl => exact answered
  | tail _ moved inductionHypothesis =>
      have answered := inductionHypothesis
      cases moved with
      | request moved =>
          have task := moved.task
          rw [answered] at task
          exact task.of_finished.2.1
      | dispatcher _ request _ => exact request.trans answered
      | begins _ _ _ request _ _ => exact request.trans answered

/-- Anything may be replied. -/
abbrev anyReply : Exchange evalEffect → Prop := fun _ => True

theorem passes_toRest_anyReply (backend : Backend τ)
    (handle : Option (NativeEvent → Job σ ε Unit)) (fuel : Nat) (r : Run σ ε α) (t : τ) :
    ∃ seen, Passes anyReply handle r seen (r.toRest backend handle fuel t).1 ∧
      backend.Answers t seen.called (r.toRest backend handle fuel t).2 :=
  passes_toRest (fun _ _ _ => trivial) (fun _ _ => trivial) fuel r t

theorem toRest_finished (backend : Backend τ) (handle : Option (NativeEvent → Job σ ε Unit))
    (fuel : Nat) {r : Run σ ε α} {a : α} (t : τ)
    (answered : r.request = .finished a) :
    (r.toRest backend handle fuel t).1.request = .finished a := by
  obtain ⟨seen, passes, -⟩ := passes_toRest_anyReply backend handle fuel r t
  exact passes.finished answered

end Run

namespace Machine

/-- The state that a request finds that begins by reading it, if it comes to that. -/
def firstRead? (backend : Backend τ) (handle : Option (NativeEvent → Job σ ε Unit)) (fuel : Nat)
    (m : Machine σ ε) (t : τ) : Option σ :=
  (m.work backend handle fuel (.ready Job.get) t).1.result?

variable {backend : Backend τ} {handle : Option (NativeEvent → Job σ ε Unit)} {fuel : Nat}
  {m : Machine σ ε} {t : τ}

theorem firstRead?_of_waits {m' : Machine σ ε} {turn' : Option TaskId} {t' : τ}
    (rests : Run.toRest backend handle fuel ⟨m, .ready (.reading .done), none⟩ t =
      (⟨m', .ready (.reading .done), turn'⟩, t')) :
    m.firstRead? backend handle fuel t = none := by
  unfold firstRead? work
  rw [show (Job.get : Job σ ε σ) = .reading .done from rfl, rests]
  rfl

theorem firstRead?_of_reads {before after : Nat} {m' : Machine σ ε} {t' : τ}
    (reads : Run.toRest backend handle before ⟨m, .ready (.reading .done), none⟩ t =
      (⟨m', .ready (.done m'.state), some .request⟩, t')) :
    m.firstRead? backend handle (before + after) t =
      if after = 0 then none else some m'.state := by
  unfold firstRead? work
  rw [show (Job.get : Job σ ε σ) = .reading .done from rfl, Run.toRest_add, reads]
  cases after with
  | zero => rfl
  | succ after =>
      have answered := Run.toRest_finished backend handle after
        (r := ⟨m', .finished m'.state, none⟩) t' rfl
      rw [if_neg (Nat.succ_ne_zero after)]
      exact congrArg Task.result? answered

end Machine

end ManagedDebugger
