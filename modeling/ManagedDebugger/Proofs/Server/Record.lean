import ManagedDebugger.Proofs.Server.History
import ManagedDebugger.Proofs.Session.Milestones

/-!
# A target that keeps a record

To say what a server does to the processes of its sessions, the target keeps a record of who
connects to it and what it is called for. Nobody looks at the record, so a server does with it what
it does without.
-/

namespace ManagedDebugger

/-- What the target notices. -/
inductive Contact where
  | connected (agent : Endpoint) (reached : Bool)
  | called (call : NativeCall)
  deriving DecidableEq

def Contact.isMilestone : Contact → Bool
  | connected .. => true
  | called call => call.isMilestone

/-- The milestones on a record. -/
def milestonesIn (contacts : List Contact) : List Contact := contacts.filter (·.isMilestone)

variable {σ ε α β τ : Type}

/-- The same network, with a record of what the target noticed, the oldest first. -/
def Network.recorded (net : Network τ) : Network (τ × List Contact) where
  connect agent t :=
    let (reached, target) := net.connect agent t.1
    (reached, target, t.2 ++ [.connected agent reached])
  backend :=
    { answer := fun call t =>
        let (reply, events, target) := net.backend.answer call t.1
        (reply, events, target, t.2 ++ [.called call])
      isRemote := net.backend.isRemote }
  fuel := net.fuel

theorem Network.milestonesIn_of_answers {net : Network τ} {t t' : τ × List Contact}
    {calls : List NativeCall} (answers : net.recorded.backend.Answers t calls t') :
    milestonesIn t'.2 =
      milestonesIn t.2 ++ (calls.filter (·.isMilestone)).map Contact.called := by
  have one (t : τ × List Contact) (call : NativeCall) :
      milestonesIn (net.recorded.backend.answer call t).2.2.2 =
        milestonesIn t.2 ++ ([call].filter (·.isMilestone)).map Contact.called := by
    have noted : (net.recorded.backend.answer call t).2.2.2 = t.2 ++ [.called call] := rfl
    rw [noted, milestonesIn, List.filter_append, milestonesIn]
    cases milestone : call.isMilestone <;> simp [Contact.isMilestone, milestone]
  induction answers with
  | nil t => simp
  | @call t t' calls call _ inductionHypothesis =>
      have split : (call :: calls).filter (·.isMilestone) = [call].filter (·.isMilestone) ++ _ :=
        List.filter_append [call] calls
      rw [inductionHypothesis, one, split, List.map_append, List.append_assoc]
  | @onward t t' calls _ inductionHypothesis =>
      have silent : [NativeCall.continueProcess].filter (·.isMilestone) = [] := rfl
      rw [inductionHypothesis, one, silent, List.map_nil, List.append_nil]

variable {net : Network τ}

theorem Run.toRest_recorded (net : Network τ) (handle : Option (NativeEvent → Job σ ε Unit))
    (fuel : Nat) (r : Run σ ε α) (t : τ × List Contact) :
    (r.toRest net.recorded.backend handle fuel t).1 = (r.toRest net.backend handle fuel t.1).1 ∧
      (r.toRest net.recorded.backend handle fuel t).2.1 =
        (r.toRest net.backend handle fuel t.1).2 := by
  induction fuel generalizing r t with
  | zero => exact ⟨rfl, rfl⟩
  | succ fuel inductionHypothesis =>
      rw [toRest, toRest, show net.recorded.backend.first = net.backend.first from rfl]
      cases stepped : r.step handle net.backend.first with
      | internal r' => exact inductionHypothesis r' t
      | call call next => exact inductionHypothesis _ _
      | rest => exact ⟨rfl, rfl⟩

namespace Server

/-- The same server, without the record. -/
def unrecorded (s : Server (τ × List Contact)) : Server τ :=
  ⟨s.target.1, s.session, s.ongoing, s.closing, s.unread, s.events⟩

/-- From a server on, a program comes to what another one comes to without the record. -/
def Agrees (s : Server (τ × List Contact)) (p : Serving (τ × List Contact) α) (q : Serving τ α) :
    Prop :=
  (p s).1 = (q s.unrecorded).1 ∧ (p s).2.unrecorded = (q s.unrecorded).2

namespace Agrees

variable {s : Server (τ × List Contact)} {p : Serving (τ × List Contact) α} {q : Serving τ α}
  {f : α → Serving (τ × List Contact) β} {g : α → Serving τ β}

theorem pure (a : α) : Agrees s (Pure.pure a) (Pure.pure a : Serving τ α) := ⟨rfl, rfl⟩

theorem bind (first : Agrees s p q) (next : ∀ a s', Agrees s' (f a) (g a)) :
    Agrees s (p >>= f) (q >>= g) := by
  obtain ⟨result, state⟩ := first
  have after := next (p s).1 (p s).2
  change _ = (g (q s.unrecorded).1 (q s.unrecorded).2).1 ∧
    _ = (g (q s.unrecorded).1 (q s.unrecorded).2).2
  rw [← result, ← state]
  exact after

theorem map (h : α → β) (agrees : Agrees s p q) : Agrees s (h <$> p) (h <$> q) :=
  ⟨congrArg h agrees.1, agrees.2⟩

theorem afterGet {f : Server (τ × List Contact) → Serving (τ × List Contact) β}
    {g : Server τ → Serving τ β} (next : Agrees s (f s) (g s.unrecorded)) :
    Agrees s (get >>= f) (get >>= g) := next

theorem ite {p' : Serving (τ × List Contact) α} {q' : Serving τ α} {c : Prop} [Decidable c]
    (holds : Agrees s p q) (fails : Agrees s p' q') :
    Agrees s (if c then p else p') (if c then q else q') := by
  split
  · exact holds
  · exact fails

end Agrees

theorem agrees_setSession {s : Server (τ × List Contact)} (session : Option SessionMachine) :
    Agrees s (setSession session) (setSession session) := ⟨rfl, rfl⟩

theorem agrees_run {s : Server (τ × List Contact)} (m : SessionMachine)
    (task : Task SessionState SessionEvent α) :
    Agrees s (run net.recorded m task) (run net m task) := by
  obtain ⟨same, target⟩ := Run.toRest_recorded net (some Session.handle) net.fuel
    ⟨m, task, none⟩ s.target
  refine ⟨?_, ?_⟩
  · exact congrArg (fun r : Run SessionState SessionEvent α => (r.request, r.machine.takeEmitted.2))
      same
  · let left (r : Run SessionState SessionEvent α) (target : τ) : Server τ :=
      ⟨target, s.session, s.ongoing, s.closing, s.unread, s.events ++ r.machine.takeEmitted.1⟩
    exact congr (congrArg left same) target

theorem agrees_finish {s : Server (τ × List Contact)} (o : Ongoing) (m : SessionMachine)
    (result : Except EngineError Json) : Agrees s (finish o m result) (finish o m result) := by
  obtain ⟨id, place, task⟩ := o
  cases place with
  | left m => exact ⟨rfl, rfl⟩
  | current isNew => cases isNew <;> cases result <;> exact ⟨rfl, rfl⟩

theorem agrees_putBack {s : Server (τ × List Contact)} (o : Ongoing) (m : SessionMachine) :
    Agrees s (putBack o m) (putBack o m) := by
  obtain ⟨id, place, task⟩ := o
  cases place <;> exact ⟨rfl, rfl⟩

theorem agrees_proceed {s : Server (τ × List Contact)} (o : Ongoing) (m : SessionMachine) :
    Agrees s (proceed net.recorded o m) (proceed net o m) := by
  refine (agrees_run m o.task).bind fun (task, m) s => ?_
  dsimp only
  split
  · exact (agrees_finish _ _ _).map _
  · exact (agrees_putBack _ _).bind fun _ s => .pure _

theorem agrees_beginWork {s : Server (τ × List Contact)} (id : Json) (work : SessionWork Json) :
    Agrees s (beginWork net.recorded id work) (beginWork net id work) := by
  refine .afterGet ?_
  dsimp only [unrecorded]
  split
  · exact .pure _
  · exact agrees_proceed _ _

theorem agrees_close {s : Server (τ × List Contact)} (c : Closing) :
    Agrees s (close net.recorded c) (close net c) := by
  refine (agrees_run c.session c.task).bind fun (task, m) s₁ => ?_
  dsimp only
  split
  · exact .bind (p := modify _) (q := modify _) ⟨rfl, rfl⟩ fun _ s₂ => agrees_beginWork c.id c.work
  · exact .bind (p := modify _) (q := modify _) ⟨rfl, rfl⟩ fun _ s₂ => .pure _

theorem agrees_connect {s : Server (τ × List Contact)} (id : Json) (agent : Endpoint)
    (config : SessionConfig) (work : SessionWork Json) :
    Agrees s (connect net.recorded id agent config work) (connect net id agent config work) := by
  refine .afterGet (.bind (p := set _) (q := set _) ⟨rfl, rfl⟩ fun _ s₁ => ?_)
  refine .ite (.pure _) ((agrees_setSession _).bind fun _ s₂ => ?_)
  cases previous : s.session with
  | none =>
      rw [show s.unrecorded.session = none from previous]
      exact agrees_beginWork id work
  | some m =>
      rw [show s.unrecorded.session = some m from previous]
      exact agrees_close _

theorem agrees_disconnect {s : Server (τ × List Contact)} (id : Json) (kill : Bool) :
    Agrees s (disconnect net.recorded id kill) (disconnect net id kill) := by
  refine .afterGet ?_
  dsimp only [unrecorded]
  split
  · exact .pure _
  · exact (agrees_setSession _).bind fun _ s => agrees_proceed _ _

theorem agrees_perform {s : Server (τ × List Contact)} (id : Json) (request : Request) :
    Agrees s (perform net.recorded id request) (perform net id request) := by
  cases request with
  | capabilities => exact .pure _
  | launch agent config request => exact agrees_connect id agent config _
  | attach agent config pid => exact agrees_connect id agent config _
  | disconnect kill => exact agrees_disconnect id kill
  | session request =>
      refine .afterGet ?_
      dsimp only [unrecorded]
      split
      · exact .pure _
      · exact agrees_proceed _ _

theorem agrees_receive {s : Server (τ × List Contact)} (line : String) :
    Agrees s (receive net.recorded line) (receive net line) := by
  refine .afterGet ?_
  rw [show s.unrecorded.isIdle = s.isIdle from rfl]
  split
  · exact ⟨rfl, rfl⟩
  · split
    · exact .pure _
    · unfold respond
      split
      · exact .pure _
      · split
        · exact .pure _
        · split
          · exact .pure _
          · exact agrees_perform _ _

theorem agrees_serve {s : Server (τ × List Contact)} (lines : List String) :
    Agrees s (serve net.recorded lines) (serve net lines) := by
  induction lines generalizing s with
  | nil => exact .pure _
  | cons line rest inductionHypothesis =>
      rw [serve_cons, serve_cons]
      refine (agrees_receive line).bind fun _ s₁ => ?_
      exact inductionHypothesis.bind fun _ s₂ => .pure _

theorem agrees_catchUp {s : Server (τ × List Contact)} :
    Agrees s (catchUp net.recorded) (catchUp net) :=
  .afterGet (.bind (p := modify _) (q := modify _) ⟨rfl, rfl⟩ fun _ _ => agrees_serve s.unread)

theorem agrees_answering {s : Server (τ × List Contact)}
    {p : Serving (τ × List Contact) (Option Response)} {q : Serving τ (Option Response)}
    (agrees : Agrees s p q) : Agrees s (answering net.recorded p) (answering net q) := by
  refine agrees.bind fun r s₁ => ?_
  cases r with
  | none => exact .pure _
  | some r => exact agrees_catchUp.bind fun _ s₂ => .pure _

theorem agrees_notify {s : Server (τ × List Contact)} (events : List NativeEvent) :
    Agrees s (notify net.recorded events) (notify net events) := by
  refine .afterGet ?_
  dsimp only [unrecorded]
  split
  · exact .pure _
  · exact (agrees_run _ _).bind fun _ s₁ => (agrees_setSession _).bind fun _ s₂ => .pure _
  · split
    · exact .pure _
    · exact agrees_answering (agrees_proceed _ _)

theorem agrees_notifyReplaced {s : Server (τ × List Contact)} (events : List NativeEvent) :
    Agrees s (notifyReplaced net.recorded events) (notifyReplaced net events) := by
  refine .afterGet ?_
  dsimp only [unrecorded]
  split
  · exact .pure _
  · exact agrees_answering (agrees_close _)

/-- The answers to everything that happens, and what is left, do not depend on the record. -/
theorem agrees_live {s : Server (τ × List Contact)} (net : Network τ)
    (occurrences : List Occurrence) :
    Agrees s (live net.recorded occurrences) (live net occurrences) := by
  induction occurrences generalizing s with
  | nil => exact .pure _
  | cons o rest inductionHypothesis =>
      have now : Agrees s (occur net.recorded o) (occur net o) := by
        cases o with
        | line text => exact (agrees_receive text).bind fun _ s₁ => .pure _
        | notified events => exact agrees_notify events
        | notifiedReplaced events => exact agrees_notifyReplaced events
        | told => exact ⟨rfl, rfl⟩
      exact now.bind fun _ s₁ => inductionHypothesis.bind fun _ s₂ => .pure _

end Server

end ManagedDebugger
