import ManagedDebugger.Proofs.Session.Decision
import ManagedDebugger.Server.Response

/-!
# Runs of a session

A session takes turns: a notification of the target or a request of the front end comes in, and its
task runs from its beginning to its end before the next one. Nothing is known about the order in
which they come in, nor about what the target replies beyond a property of single exchanges.
-/

namespace ManagedDebugger

namespace Session

/-- What comes in. -/
inductive Input where
  | notified (event : NativeEvent)
  | launch (request : LaunchRequest)
  | attach (pid : UInt32)
  | asked (request : SessionRequest)
  | disconnect (kill : Bool)
  deriving DecidableEq

namespace Input

/-- The task of the session. A notification is not answered. -/
def task : Input → SessionJob (Except EngineError Json)
  | notified event => (fun _ => .ok doneJson) <$> handle event
  | launch request => (pidJson <$> Session.launch request).run
  | attach pid => ((fun _ => pidJson pid) <$> Session.attach pid).run
  | asked request => request.work.run
  | disconnect kill => (fun _ => .ok doneJson) <$> Session.disconnect kill

/-- The front end asks for the end of the stop. -/
def EndsStop : Input → Prop
  | asked .continue_ | asked (.step ..) | asked .terminate | disconnect _ => True
  | _ => False

/-- The process is gone. -/
def IsExit : Input → Prop
  | notified (.processExited _) => True
  | _ => False

end Input

/-- One input with what became of it. -/
structure Turn where
  input : Input
  before : SessionState
  transcript : Transcript
  answer : Except EngineError Json
  after : SessionState

namespace Turn

/-- The task of the input plays the transcript, alone, with replies that are possible. -/
structure Happens (possible : Exchange evalEffect → Prop) (t : Turn) : Prop where
  plays : t.input.task.Plays t.transcript t.answer
  allowed : (Job.alone possible).Allows t.before t.transcript t.after

/-- The resumes of the target that no remote call asked for. -/
def ownResumes (t : Turn) : Nat := ManagedDebugger.ownResumes (evalOps t.transcript)

/-- The front end is told of a stop. -/
def Stops (t : Turn) : Prop := t.transcript.ReportsStop

variable {possible : Exchange evalEffect → Prop} {t : Turn}

theorem Happens.ensured (happens : t.Happens possible)
    {Q : Transcript → SessionState → Except EngineError Json → Prop}
    (ensured : t.input.task.Ensures (Job.alone possible) t.before Q) :
    Q t.transcript t.after t.answer :=
  ensured t.transcript t.after t.answer happens.plays happens.allowed

theorem Happens.ensured_of (happens : t.Happens possible) {input : Input} (is : t.input = input)
    {Q : Transcript → SessionState → Except EngineError Json → Prop}
    (ensured : input.task.Ensures (Job.alone possible) t.before Q) :
    Q t.transcript t.after t.answer := by
  subst is
  exact happens.ensured ensured

end Turn

/-- Turns one after the other, from a state to a state. -/
inductive Runs (possible : Exchange evalEffect → Prop) :
    SessionState → List Turn → SessionState → Prop where
  | nil (s : SessionState) : Runs possible s [] s
  | cons {t : Turn} {ts : List Turn} {s : SessionState} :
      t.Happens possible → Runs possible t.after ts s → Runs possible t.before (t :: ts) s

variable {possible : Exchange evalEffect → Prop}

theorem runs_nil_iff {s s' : SessionState} : Runs possible s [] s' ↔ s' = s := by
  constructor
  · intro run
    cases run
    rfl
  · intro same
    subst same
    exact .nil s'

theorem runs_cons_iff {t : Turn} {ts : List Turn} {s s' : SessionState} :
    Runs possible s (t :: ts) s' ↔
      s = t.before ∧ t.Happens possible ∧ Runs possible t.after ts s' := by
  constructor
  · intro run
    cases run with
    | cons happens rest => exact ⟨rfl, happens, rest⟩
  · intro holds
    obtain ⟨rfl, happens, rest⟩ := holds
    exact .cons happens rest

theorem runs_append_iff {first second : List Turn} {s s'' : SessionState} :
    Runs possible s (first ++ second) s'' ↔
      ∃ s', Runs possible s first s' ∧ Runs possible s' second s'' := by
  induction first generalizing s with
  | nil =>
      constructor
      · exact fun run => ⟨s, .nil s, run⟩
      · intro holds
        obtain ⟨s', ⟨⟩, run⟩ := holds
        exact run
  | cons t rest inductionHypothesis =>
      simp only [List.cons_append, runs_cons_iff, inductionHypothesis]
      constructor
      · intro holds
        obtain ⟨rfl, happens, s', left, right⟩ := holds
        exact ⟨s', ⟨rfl, happens, left⟩, right⟩
      · intro holds
        obtain ⟨s', ⟨rfl, happens, left⟩, right⟩ := holds
        exact ⟨rfl, happens, s', left, right⟩

/-- What every turn keeps holds after every run. -/
theorem Runs.preserves {ts : List Turn} {s s' : SessionState} {P : SessionState → Prop}
    (run : Runs possible s ts s')
    (kept : ∀ t ∈ ts, t.Happens possible → P t.before → P t.after) (start : P s) :
    P s' := by
  induction run with
  | nil s => exact start
  | @cons t rest s happens _ inductionHypothesis =>
      refine inductionHypothesis (fun u member => kept u (List.mem_cons_of_mem t member)) ?_
      exact kept t List.mem_cons_self happens start

theorem Runs.happens {ts : List Turn} {s s' : SessionState} (run : Runs possible s ts s') :
    ∀ t ∈ ts, t.Happens possible := by
  induction run with
  | nil s => exact List.forall_mem_nil _
  | cons happens _ inductionHypothesis =>
      exact List.forall_mem_cons.mpr ⟨happens, inductionHypothesis⟩

/-! A target that answers each call in the same way whenever it is made, and never fails. -/

instance (call : NativeCall) : Inhabited call.Answer := by
  cases call <;> infer_instance

section Answers

variable (answers : (call : NativeCall) → call.Answer)

/-- Evaluations do not come to an end, and everything else is answered. -/
def replyOf : (op : EvalOp) → op.Reply
  | .native call => .ok (answers call)
  | .register .. => (0 : Nat)
  | .cancel _ => ()
  | .wait .. => none

def respond (s : SessionState) : (op : WorkOp SessionState SessionEvent) → op.Reply × SessionState
  | .eval op => (replyOf answers op, s)
  | .update f => (s, f s)
  | .emit _ | .acquire _ | .release _ => ((), s)

/-- The turn of an input. -/
def Input.turn (input : Input) (s : SessionState) : Turn :=
  let ended := input.task.simulate (respond answers) s
  ⟨input, s, ended.1, ended.2.2, ended.2.1⟩

/-- The turns of some inputs, one after the other. -/
def turns : List Input → SessionState → List Turn
  | [], _ => []
  | input :: rest, s => input.turn answers s :: turns rest (input.turn answers s).after

/-- The state after some turns. -/
def afterTurns (s : SessionState) (ts : List Turn) : SessionState :=
  (ts.getLast?.map (·.after)).getD s

theorem possible_respond (s : SessionState) (op : WorkOp SessionState SessionEvent) :
    Job.alone EvalOp.Succeeds s ⟨op, (respond answers s op).1⟩ (respond answers s op).2 := by
  cases op with
  | eval op =>
      refine ⟨?_, rfl⟩
      cases op with
      | native call => exact ⟨answers call, rfl⟩
      | register eval thread => trivial
      | cancel eval => trivial
      | wait ticket limit => trivial
  | update f => exact ⟨rfl, rfl⟩
  | emit event => rfl
  | acquire lock => rfl
  | release lock => rfl

theorem happens_turn (input : Input) (s : SessionState) :
    (input.turn answers s).Happens EvalOp.Succeeds where
  plays := Program.plays_simulate (E := workEffect SessionState SessionEvent)
    (respond answers) input.task s
  allowed := Program.allows_simulate (E := workEffect SessionState SessionEvent)
    (possible_respond answers) input.task s

/-- Whatever comes in, there is a run. -/
theorem runs_turns (inputs : List Input) (s : SessionState) :
    Runs EvalOp.Succeeds s (turns answers inputs s) (afterTurns s (turns answers inputs s)) := by
  induction inputs generalizing s with
  | nil => exact .nil s
  | cons input rest inductionHypothesis =>
      have last : afterTurns s (turns answers (input :: rest) s) =
          afterTurns (input.turn answers s).after
            (turns answers rest (input.turn answers s).after) := by
        cases rest with
        | nil => rfl
        | cons next rest => simp [afterTurns, turns, List.getLast?_cons]
      rw [last]
      exact .cons (happens_turn answers input s) (inductionHypothesis _)

end Answers

end Session

end ManagedDebugger
