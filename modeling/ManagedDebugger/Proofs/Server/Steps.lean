import ManagedDebugger.Proofs.Server.History
import ManagedDebugger.Proofs.Session.Rest

/-!
# Enough steps

A network has a number of steps after which a run counts as endless. If its target comes to rest, no
run is endless: from some number of steps on, what a server answers and what is left of it are
always the same.
-/

namespace ManagedDebugger

variable {τ α β : Type}

namespace Server

/-- With enough steps, a program has always the same outcome. -/
def Definite (p : Nat → Serving τ α) (s : Server τ) : Prop :=
  ∃ enough out, ∀ fuel ≥ enough, p fuel s = out

namespace Definite

variable {s : Server τ} {p : Nat → Serving τ α} {f : Nat → α → Serving τ β}

/-- No steps are counted. -/
theorem same (p : Serving τ α) : Definite (fun _ => p) s := ⟨0, p s, fun _ _ => rfl⟩

theorem bind (first : Definite p s) (next : ∀ a s', Definite (fun fuel => f fuel a) s') :
    Definite (fun fuel => p fuel >>= f fuel) s := by
  obtain ⟨enough, ⟨a, s'⟩, first⟩ := first
  obtain ⟨enough', out, second⟩ := next a s'
  refine ⟨max enough enough', out, fun fuel more => ?_⟩
  obtain ⟨more, more'⟩ := Nat.max_le.mp more
  change f fuel (p fuel s).1 (p fuel s).2 = out
  rw [first fuel more]
  exact second fuel more'

theorem map (g : α → β) (definite : Definite p s) : Definite (fun fuel => g <$> p fuel) s := by
  obtain ⟨enough, out, same⟩ := definite
  refine ⟨enough, (g out.1, out.2), fun fuel more => ?_⟩
  rw [← same fuel more]
  rfl

theorem afterGet {f : Nat → Server τ → Serving τ β} (next : Definite (fun fuel => f fuel s) s) :
    Definite (fun fuel => get >>= f fuel) s := next

theorem afterModify {g : Server τ → Server τ} {f : Nat → PUnit → Serving τ β}
    (next : Definite (fun fuel => f fuel ⟨⟩) (g s)) :
    Definite (fun fuel => modify g >>= f fuel) s := next

theorem afterSet {s' : Server τ} {f : Nat → PUnit → Serving τ β}
    (next : Definite (fun fuel => f fuel ⟨⟩) s') : Definite (fun fuel => set s' >>= f fuel) s :=
  next

end Definite

variable {net : Network τ} {load : τ → Nat} {s : Server τ}

section

variable (subsides : net.backend.Subsides load)

include subsides

theorem definite_run (m : SessionMachine) (task : Task SessionState SessionEvent α) :
    Definite (fun fuel => run { net with fuel } m task) s := by
  have comes : Run.ComesToRest net.backend (some Session.handle) ⟨m, task, none⟩ s.target :=
    Run.comesToRest subsides _ _
  obtain ⟨enough, r', t', -, same⟩ := comes
  refine ⟨enough, run { net with fuel := enough } m task s, fun fuel more => ?_⟩
  unfold run Machine.work
  dsimp only
  rw [same fuel more, same enough le_rfl]

theorem definite_proceed (o : Ongoing) (m : SessionMachine) :
    Definite (fun fuel => proceed { net with fuel } o m) s := by
  refine .bind (definite_run subsides m o.task) fun (task, m) s₁ => ?_
  dsimp only
  cases task.result? with
  | some result => exact .same _
  | none => exact .same _

theorem definite_beginWork (id : Json) (work : SessionWork Json) :
    Definite (fun fuel => beginWork { net with fuel } id work) s := by
  refine .afterGet ?_
  cases s.session with
  | none => exact .same _
  | some m => exact definite_proceed subsides _ _

theorem definite_close (c : Closing) : Definite (fun fuel => close { net with fuel } c) s := by
  refine .bind (definite_run subsides c.session c.task) fun (task, m) s₁ => ?_
  dsimp only
  cases task.result? with
  | some result => exact .afterModify (definite_beginWork subsides _ _)
  | none => exact .same _

theorem definite_connect (id : Json) (agent : Endpoint) (config : SessionConfig)
    (work : SessionWork Json) :
    Definite (fun fuel => connect { net with fuel } id agent config work) s := by
  refine .afterGet (.afterSet ?_)
  cases (net.connect agent s.target).1 with
  | false => exact .same _
  | true =>
      refine .afterModify ?_
      cases s.session with
      | none => exact definite_beginWork subsides _ _
      | some previous => exact definite_close subsides _

theorem definite_disconnect (id : Json) (kill : Bool) :
    Definite (fun fuel => disconnect { net with fuel } id kill) s := by
  refine .afterGet ?_
  cases s.session with
  | none => exact .same _
  | some m => exact .afterModify (definite_proceed subsides _ _)

theorem definite_perform (id : Json) (request : Request) :
    Definite (fun fuel => perform { net with fuel } id request) s := by
  cases request with
  | capabilities => exact .same _
  | launch agent config request => exact definite_connect subsides id agent config _
  | attach agent config pid => exact definite_connect subsides id agent config _
  | disconnect kill => exact definite_disconnect subsides id kill
  | session request =>
      refine .afterGet ?_
      cases s.session with
      | none => exact .same _
      | some m => exact definite_proceed subsides _ _

theorem definite_respond (line : String) :
    Definite (fun fuel => respond { net with fuel } line) s := by
  unfold respond
  cases Json.parse? line with
  | none => exact .same _
  | some j =>
      dsimp only
      cases Message.read? j with
      | none => exact .same _
      | some m =>
          dsimp only
          cases m.request with
          | error refusal => exact .same _
          | ok request => exact definite_perform subsides _ _

theorem definite_receive (line : String) :
    Definite (fun fuel => receive { net with fuel } line) s := by
  refine .afterGet ?_
  cases s.isIdle with
  | false => exact .same _
  | true =>
      cases blank : Text.allBlank line with
      | true => exact .same _
      | false => exact definite_respond subsides _

theorem definite_serve (lines : List String) :
    Definite (fun fuel => serve { net with fuel } lines) s := by
  induction lines generalizing s with
  | nil => exact .same _
  | cons line rest inductionHypothesis =>
      simp only [serve_cons]
      refine .bind (definite_receive subsides line) fun _ s₁ => ?_
      exact .bind inductionHypothesis fun _ s₂ => .same _

theorem definite_answering {p : Nat → Serving τ (Option Response)} (definite : Definite p s) :
    Definite (fun fuel => answering { net with fuel } (p fuel)) s := by
  refine .bind definite fun r s₁ => ?_
  cases r with
  | none => exact .same _
  | some r =>
      refine .bind (.afterGet (.afterModify (definite_serve subsides _))) fun _ s₂ => .same _

theorem definite_notify (events : List NativeEvent) :
    Definite (fun fuel => notify { net with fuel } events) s := by
  refine .afterGet ?_
  cases s.ongoing with
  | none =>
      cases s.session with
      | none => exact .same _
      | some m => exact .bind (definite_run subsides _ _) fun _ s₁ => .same _
  | some o =>
      obtain ⟨id, place, task⟩ := o
      cases place with
      | left m => exact definite_answering subsides (definite_proceed subsides _ _)
      | current isNew =>
          cases s.session with
          | none => exact .same _
          | some m => exact definite_answering subsides (definite_proceed subsides _ _)

theorem definite_notifyReplaced (events : List NativeEvent) :
    Definite (fun fuel => notifyReplaced { net with fuel } events) s := by
  refine .afterGet ?_
  cases s.closing with
  | none => exact .same _
  | some c => exact definite_answering subsides (definite_close subsides _)

theorem definite_occur (o : Occurrence) : Definite (fun fuel => occur { net with fuel } o) s := by
  cases o with
  | line text => exact .bind (definite_receive subsides text) fun _ s₁ => .same _
  | notified events => exact definite_notify subsides events
  | notifiedReplaced events => exact definite_notifyReplaced subsides events
  | told => exact .same _

/-- However many steps more a network has, a whole history has the same outcome. -/
theorem definite_live (occurrences : List Occurrence) :
    Definite (fun fuel => live { net with fuel } occurrences) s := by
  induction occurrences generalizing s with
  | nil => exact .same _
  | cons o rest inductionHypothesis =>
      refine .bind (definite_occur subsides o) fun _ s₁ => ?_
      exact .bind inductionHypothesis fun _ s₂ => .same _

end

end Server

end ManagedDebugger
