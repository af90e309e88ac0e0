import ManagedDebugger.Proofs.Session.Handling
import ManagedDebugger.Proofs.Session.Informing

/-!
# The front end's picture of breakpoints

The front end takes the status of each breakpoint from the answer to its request, and after that
from the changes that it is told of. After every turn this is what the breakpoint is, whatever calls
failed, but for one way to lose a change. If the session is to stop at the entry point of a module
that was loaded, and the target refuses the breakpoint there, then nothing is told of what became
of the user's breakpoints in the module before that.
-/

namespace ManagedDebugger

open Json

theorem u32?_jsonU32 (n : UInt32) : u32? (jsonU32 n) = some n := by
  have bound : n.toNat < 4294967296 := n.toNat_lt
  have inside : (0 : Int) ≤ n.toNat ∧ (n.toNat : Int) ≤ 4294967295 := by omega
  simp [u32?, natBelow?, jsonU32, Json.nat, intIn?, inside, UInt32.size]

namespace BreakpointInfo

/-- How the front end reads a status. -/
def read? (j : Json) : Option BreakpointInfo := do
  let id ← (j.member? "id").bind u32?
  let verified ← (j.member? "verified").bind bool?
  let source ← (j.member? "source").bind str?
  let line ← (j.member? "line").bind u32?
  return ⟨id, verified, source, line, (j.member? "endLine").bind u32?,
    (j.member? "message").bind str?⟩

@[simp]
theorem read?_json (b : BreakpointInfo) : read? b.json = some b := by
  obtain ⟨id, verified, source, line, endLine, message⟩ := b
  cases endLine <;> cases message <;>
    simp [read?, json, memberIf, member?, u32?_jsonU32, bool?, str?]

/-- How the front end reads the answer to a request for breakpoints. -/
def readAll? (answer : Json) : Option (List BreakpointInfo) :=
  (answer.member? "breakpoints").bind (list? read?)

theorem readAll?_answer (infos : List BreakpointInfo) :
    readAll? (.obj [("breakpoints", ofList json infos)]) = some infos := by
  have items : (infos.map json).mapM read? = some infos := by
    induction infos with
    | nil => rfl
    | cons info rest inductionHypothesis => simp [inductionHypothesis]
  simpa [readAll?, member?, ofList, list?] using items

end BreakpointInfo

/-- A call to the target failed. -/
def Transcript.Refuses (es : Transcript) (call : NativeCall) : Prop :=
  ∃ e, (⟨.eval (.native call), .error e⟩ : Exchange (workEffect SessionState SessionEvent)) ∈ es

namespace Session

open Job

variable {possible : Exchange evalEffect → Prop}

/-- The target refuses the breakpoint on the entry point of a module that was loaded, and the front
end is told of nothing. -/
structure RefusesEntry (module : ModuleId) (es : Transcript) (s s' : SessionState) : Prop where
  stopAtEntry : s.config.stopAtEntry = true
  refused : ∃ entry, s'.symbols.entryPoint? module = some entry ∧
    es.Refuses (.createBreakpoint entry 0)
  silent : emitted es = []

theorem RefusesEntry.after {module : ModuleId} {first second : Transcript}
    {s s' s'' : SessionState} (refuses : RefusesEntry module second s' s'')
    (silent : emitted first = []) (config : s'.config = s.config) :
    RefusesEntry module (first ++ second) s s'' := by
  obtain ⟨entry, found, e, member⟩ := refuses.refused
  have told : emitted (first ++ second) = [] := by simp [silent, refuses.silent]
  have stopAtEntry : s.config.stopAtEntry = true := by rw [← config, refuses.stopAtEntry]
  exact ⟨stopAtEntry, ⟨entry, found, e, List.mem_append_right first member⟩, told⟩

theorem RefusesEntry.append {module : ModuleId} {first second : Transcript} {s s' : SessionState}
    (refuses : RefusesEntry module first s s') (silent : emitted second = []) :
    RefusesEntry module (first ++ second) s s' := by
  obtain ⟨entry, found, e, member⟩ := refuses.refused
  have told : emitted (first ++ second) = [] := by simp [silent, refuses.silent]
  exact ⟨refuses.stopAtEntry, ⟨entry, found, e, List.mem_append_left second member⟩, told⟩

theorem ensures_call (c : NativeCall) (s : SessionState) :
    (Work.native c : SessionWork c.Answer).run.Ensures (alone possible) s fun es s' r =>
      emitted es = [] ∧ s' = s ∧ ∀ e, r = .error e → Transcript.Refuses es c := by
  refine Program.ensures_perform_iff.mpr ?_
  intro reply s' holds
  obtain ⟨-, rfl⟩ := holds
  refine Program.ensures_done_iff.mpr ⟨rfl, rfl, fun e failed => ?_⟩
  cases reply with
  | ok answer => cases failed
  | error e => exact ⟨e, List.mem_singleton.mpr rfl⟩

/-- If this fails, it is because the target refused the breakpoint. -/
theorem ensures_breakAtEntry (module : ModuleId) (s : SessionState) :
    (breakAtEntry module).run.Ensures (alone possible) s fun es s' r =>
      emitted es = [] ∧ s'.breakpoints = s.breakpoints ∧
        ∀ e, r = .error e → RefusesEntry module es s s' := by
  refine Work.ofJob_bind (P := fun es s' a => emitted es = [] ∧ s' = s ∧ a = s)
    (ensures_update ⟨rfl, rfl, rfl⟩) ?_
  intro first s' before holds
  obtain ⟨silent, rfl, rfl⟩ := holds
  split
  · rename_i asked
    have stopAtEntry : before.config.stopAtEntry = true := by
      simp only [Bool.and_eq_true] at asked
      exact asked.1.1
    split
    · exact Program.ensures_done_iff.mpr ⟨by simpa using silent, rfl, nofun⟩
    · rename_i entry found
      refine Program.Ensures.run_bind (ensures_call (.createBreakpoint entry 0) before) ?_ ?_
      · intro second _ b holds
        obtain ⟨quiet, rfl, -⟩ := holds
        refine Work.ensures_ofJob (ensures_update ⟨?_, rfl, nofun⟩)
        rw [emitted_append, silent, emitted_append, quiet]
        rfl
      · intro second _ e holds
        obtain ⟨quiet, rfl, refused⟩ := holds
        have refuses : RefusesEntry module second _ _ :=
          ⟨stopAtEntry, ⟨entry, found, refused e rfl⟩, quiet⟩
        have told : emitted (first ++ second) = [] := by simp [silent, quiet]
        exact ⟨told, rfl, fun _ _ => refuses.after silent rfl⟩
  · exact Program.ensures_done_iff.mpr ⟨by simpa using silent, rfl, nofun⟩

/-- What becomes of a module that was loaded. -/
inductive LoadsModule (module : ModuleId) (es : Transcript) (s s' : SessionState) :
    Except EngineError Action → Prop where
  | informs {r : Except EngineError Action} : Informs es s s' → LoadsModule module es s s' r
  | refuses {e : EngineError} {infos : List BreakpointInfo} :
      RefusesEntry module es s s' → s.breakpoints.Loads infos s'.breakpoints →
      LoadsModule module es s s' (.error e)

theorem LoadsModule.after {module : ModuleId} {first second : Transcript}
    {s s' s'' : SessionState} {r : Except EngineError Action}
    (loads : LoadsModule module second s' s'' r) (silent : emitted first = [])
    (breakpoints : s'.breakpoints = s.breakpoints) (config : s'.config = s.config) :
    LoadsModule module (first ++ second) s s'' r := by
  cases loads with
  | informs informs =>
      have quiet : Informs first s s' := .silent (Transcript.changed_of_silent silent) breakpoints
      exact .informs (quiet.append informs)
  | refuses refuses loads =>
      rw [breakpoints] at loads
      exact .refuses (refuses.after silent config) loads

/-- The handling of a module that was loaded, once its symbols are read. -/
theorem ensures_announced (module : ModuleInfo) {s : SessionState} (named : s.breakpoints.Named) :
    (do
      Work.ofJob (modifyProcess fun p => { p with modules := p.modules ++ [module] })
      let changed ← Work.ofJob (onBreakpoints fun symbols r => r.moduleLoaded symbols module.id)
      breakAtEntry module.id
      Work.ofJob (Job.emit (.moduleLoaded module.name module.path))
      Work.ofJob (reportChanged changed)
      return Action.resume : SessionWork Action).run.Ensures (alone possible) s
      fun es s' r => LoadsModule module.id es s s' r := by
  refine Work.ofJob_bind (P := fun es s' _ =>
    emitted es = [] ∧ s'.breakpoints = s.breakpoints ∧ s'.config = s.config)
    (ensures_update ⟨rfl, rfl, rfl⟩) ?_
  intro first s₁ _ holds
  obtain ⟨silent, breakpoints, config⟩ := holds
  rw [← breakpoints] at named
  refine Program.Ensures.mono (Q := fun es s' r => LoadsModule module.id es s₁ s' r) ?_
    fun es s' r loads => loads.after silent breakpoints config
  refine Work.ofJob_bind (ensures_onBreakpoints (P := fun infos r => s₁.breakpoints.Loads infos r)
    (s₁.breakpoints.returns_moduleLoaded s₁.symbols module.id named)) ?_
  intro second _ infos holds
  obtain ⟨quiet, r, loads, rfl⟩ := holds
  refine Program.Ensures.run_bind (ensures_breakAtEntry module.id _) ?_ ?_
  · intro third s₂ _ holds
    obtain ⟨still, kept, -⟩ := holds
    refine Work.ofJob_bind (P := fun es s' _ => Transcript.changed es = [] ∧ s' = s₂)
      (ensures_emit ⟨rfl, rfl⟩) ?_
    intro fourth s₃ _ holds
    obtain ⟨announced, rfl⟩ := holds
    refine Work.ofJob_bind (ensures_reportChanged infos s₃) ?_
    intro fifth s₄ _ holds
    obtain ⟨reported, rfl⟩ := holds
    refine Program.ensures_done_iff.mpr (.informs ?_)
    have quiet := Transcript.changed_of_silent quiet
    have still := Transcript.changed_of_silent still
    have told : Transcript.changed (second ++ (third ++ (fourth ++ (fifth ++ [])))) = infos := by
      simp [quiet, still, announced, reported]
    rw [Informs, told, kept]
    exact loads.tells
  · intro third s₂ e holds
    obtain ⟨still, same, refuses⟩ := holds
    have kept : s₂.breakpoints = r := same
    rw [← kept] at loads
    exact .refuses ((refuses e rfl).after quiet rfl) loads

theorem ensures_onModuleLoaded (module : ModuleInfo) {s : SessionState}
    (named : s.breakpoints.Named) :
    (onModuleLoaded module).run.Ensures (alone possible) s fun es s' r =>
      LoadsModule module.id es s s' r := by
  refine Program.Ensures.run_bind (ensures_call (.moduleSymbols module.id) s) ?_ ?_
  · intro first s' symbols holds
    obtain ⟨silent, rfl, -⟩ := holds
    cases symbols with
    | none =>
        exact (ensures_announced module named).mono fun _ _ _ loads => loads.after silent rfl rfl
    | some symbols =>
        refine Work.ofJob_bind (P := fun es s'' _ =>
          emitted es = [] ∧ s''.breakpoints = s'.breakpoints ∧ s''.config = s'.config)
          (ensures_update ⟨rfl, rfl, rfl⟩) ?_
        intro second s₁ _ holds
        obtain ⟨quiet, breakpoints, config⟩ := holds
        rw [← breakpoints] at named
        refine (ensures_announced module named).mono fun _ _ _ loads => ?_
        exact (loads.after quiet breakpoints config).after silent rfl rfl
  · intro first s' e holds
    obtain ⟨silent, rfl, -⟩ := holds
    exact .informs (.silent (Transcript.changed_of_silent silent) rfl)

/-- The front end learns what became of the breakpoints, or nothing at all. -/
inductive Tells (input : Input) (infos : List BreakpointInfo) (es : Transcript)
    (s s' : SessionState) : Prop where
  | all : s.breakpoints.Tells infos s'.breakpoints → Tells input infos es s s'
  | nothing {module : ModuleInfo} {lost : List BreakpointInfo} :
      input = .notified (.moduleLoaded module) → RefusesEntry module.id es s s' →
      s.breakpoints.Loads lost s'.breakpoints → Tells input infos es s s'

theorem ensures_moduleLoaded (module : ModuleInfo) {s : SessionState}
    (named : s.breakpoints.Named) :
    (handle (.moduleLoaded module)).Ensures (alone possible) s fun es s' _ =>
      Tells (.notified (.moduleLoaded module)) (Transcript.changed es) es s s' := by
  refine (ensures_onModuleLoaded module named).bind fun first s' r loads => ?_
  cases loads with
  | informs informs =>
      exact (informing_carryOut r s').mono fun _ _ _ carried => .all (informs.append carried)
  | refuses refuses loads =>
      refine (ensures_applyResume s').mono fun second _ _ holds => ?_
      obtain ⟨-, silent, rfl⟩ := holds
      exact .nothing rfl (refuses.append silent) loads

theorem ensures_setBreakpoints (source : String) (breakpoints : List BreakpointRequest)
    {s : SessionState} (named : s.breakpoints.Named) :
    (SessionRequest.setBreakpoints source breakpoints).work.run.Ensures (alone possible) s
      fun es s' answer => emitted es = [] ∧ ∃ infos, s.breakpoints.Tells infos s'.breakpoints ∧
        answer = .ok (.obj [("breakpoints", ofList BreakpointInfo.json infos)]) := by
  have ensured : (setBreakpoints source breakpoints).Ensures (alone possible) s
      fun es s' infos => emitted es = [] ∧ s.breakpoints.Tells infos s'.breakpoints := by
    refine update_bind ?_
    have returns := s.breakpoints.returns_setBreakpoints s.symbols (s.process.modules.map (·.id))
      source breakpoints named
    refine (ensures_onBreakpoints (P := fun infos r => s.breakpoints.Tells infos r) returns).mono ?_
    intro es _ infos holds
    obtain ⟨silent, r, tells, rfl⟩ := holds
    exact ⟨silent, tells⟩
  refine Work.ofJob_bind ensured fun es s' infos holds => Program.ensures_done_iff.mpr ?_
  obtain ⟨silent, tells⟩ := holds
  exact ⟨by simpa using silent, infos, tells, rfl⟩

/-- The statuses in the answer to a request for breakpoints. -/
def Input.answered (input : Input) (answer : Except EngineError Json) : List BreakpointInfo :=
  match input, answer with
  | .asked (.setBreakpoints ..), .ok answer => (BreakpointInfo.readAll? answer).getD []
  | _, _ => []

/-- What is not answered with breakpoints tells of all changes on the way. -/
theorem tells_ofInforming {input : Input} (informs : Informing possible input.task)
    (unanswered : ∀ answer, input.answered answer = []) (s : SessionState) :
    input.task.Ensures (alone possible) s fun es s' answer =>
      Tells input (input.answered answer ++ Transcript.changed es) es s s' := by
  refine (informs s).mono fun es s' answer informs => ?_
  rw [unanswered]
  exact .all informs

theorem tells_notified (event : NativeEvent) {s : SessionState} (named : s.breakpoints.Named) :
    (Input.notified event).task.Ensures (alone possible) s fun es s' _ =>
      Tells (.notified event) (Transcript.changed es) es s s' := by
  cases event with
  | moduleLoaded module =>
      exact Program.ensures_map_iff.mpr (ensures_moduleLoaded module named)
  | _ =>
      refine tells_ofInforming (.map _ (informing_notified ?_)) (fun _ => rfl) s
      exact fun _ => nofun

theorem tells_asked (request : SessionRequest) {s : SessionState} (named : s.breakpoints.Named) :
    (Input.asked request).task.Ensures (alone possible) s fun es s' answer =>
      Tells (.asked request) ((Input.asked request).answered answer ++ Transcript.changed es)
        es s s' := by
  cases request with
  | setBreakpoints source breakpoints =>
      refine (ensures_setBreakpoints source breakpoints named).mono fun es s' _ holds => ?_
      obtain ⟨silent, infos, tells, rfl⟩ := holds
      refine .all ?_
      rw [Input.answered, BreakpointInfo.readAll?_answer, Transcript.changed_of_silent silent,
        List.append_nil]
      exact tells
  | _ =>
      refine tells_ofInforming (informing_asked ?_) (fun _ => rfl) s
      exact fun _ _ => nofun

theorem tells_task (input : Input) {s : SessionState} (named : s.breakpoints.Named) :
    input.task.Ensures (alone possible) s fun es s' answer =>
      Tells input (input.answered answer ++ Transcript.changed es) es s s' := by
  cases input with
  | notified event => exact tells_notified event named
  | launch request =>
      have launched : Informing possible (Session.launch request).run :=
        .run_bind (.call _) fun pid => .run_bind (.ofJob (informing_started pid)) fun _ => .pure _
      exact tells_ofInforming (.run_map _ launched) (fun _ => rfl) s
  | attach pid =>
      have attached : Informing possible (Session.attach pid).run :=
        .run_bind (.call _) fun _ => .ofJob (informing_started pid)
      exact tells_ofInforming (.run_map _ attached) (fun _ => rfl) s
  | asked request => exact tells_asked request named
  | disconnect kill =>
      exact tells_ofInforming (.map _ (informing_disconnect kill)) (fun _ => rfl) s

namespace Turn

/-- All statuses that the front end is told, in the answer and on the way. -/
def told (t : Turn) : List BreakpointInfo :=
  t.input.answered t.answer ++ t.transcript.changed

/-- A module is loaded, and the breakpoint on its entry point refused. -/
def RefusesEntry (t : Turn) : Prop :=
  ∃ module, t.input = .notified (.moduleLoaded module) ∧
    Session.RefusesEntry module.id t.transcript t.before t.after

/-- A breakpoint has another status than before. -/
def ChangesStatus (t : Turn) : Prop :=
  ∃ id b b', t.before.breakpoints.get? id = some b ∧ t.after.breakpoints.get? id = some b' ∧
    b'.info ≠ b.info

variable {t : Turn}

theorem RefusesEntry.told_eq_nil (refuses : t.RefusesEntry) : t.told = [] := by
  obtain ⟨module, notified, refuses⟩ := refuses
  simp [told, notified, Input.answered, Transcript.changed_of_silent refuses.silent]

theorem Happens.tells (happens : t.Happens possible) (named : t.before.breakpoints.Named) :
    Tells t.input t.told t.transcript t.before t.after :=
  happens.ensured (tells_task t.input named)

theorem Happens.named (happens : t.Happens possible) (named : t.before.breakpoints.Named) :
    t.after.breakpoints.Named := by
  cases happens.tells named with
  | all tells => exact tells.named named
  | nothing notified refuses loads => exact loads.tells.named named

/-- A front end that knew every status knows it after the turn as well, but for the one way to lose
a change. -/
theorem Happens.shows_iff (happens : t.Happens possible) (named : t.before.breakpoints.Named)
    {p : Picture} (shown : p.Shows t.before.breakpoints) :
    (p.learn t.told).Shows t.after.breakpoints ↔ (t.RefusesEntry → ¬ t.ChangesStatus) := by
  constructor
  · intro current refuses changes
    obtain ⟨id, b, b', before, after, different⟩ := changes
    have now : (p.learn t.told).get? id = some b'.info := current id b' after
    rw [refuses.told_eq_nil, Picture.learn_nil, shown id b before] at now
    exact different (Option.some.inj now).symm
  · intro kept
    cases happens.tells named with
    | all tells => exact tells.shown named p shown
    | @nothing module lost notified refuses loads =>
        have refuses : t.RefusesEntry := ⟨module, notified, refuses⟩
        rw [refuses.told_eq_nil, Picture.learn_nil]
        intro id b' after
        obtain ⟨b, before⟩ := loads.known id b' after
        rw [shown id b before]
        by_cases same : b'.info = b.info
        · rw [same]
        · exact absurd ⟨id, b, b', before, after, same⟩ (kept refuses)

end Turn

/-- After each of some turns, the front end knows the status of every breakpoint. -/
def KeptCurrent : Picture → List Turn → Prop
  | _, [] => True
  | p, t :: rest =>
    (p.learn t.told).Shows t.after.breakpoints ∧ KeptCurrent (p.learn t.told) rest

theorem Runs.keptCurrent_iff {ts : List Turn} {s s' : SessionState} (run : Runs possible s ts s')
    (named : s.breakpoints.Named) {p : Picture} (shown : p.Shows s.breakpoints) :
    KeptCurrent p ts ↔ ∀ t ∈ ts, t.RefusesEntry → ¬ t.ChangesStatus := by
  induction run generalizing p with
  | nil s => exact ⟨fun _ => List.forall_mem_nil _, fun _ => trivial⟩
  | @cons t rest s happens _ inductionHypothesis =>
      have here := happens.shows_iff named shown
      have there (current : (p.learn t.told).Shows t.after.breakpoints) :=
        inductionHypothesis (happens.named named) current
      rw [List.forall_mem_cons, ← here]
      exact and_congr_right there

theorem not_refuses_of_succeeds {es : Transcript} {s s' : SessionState}
    (allowed : (alone EvalOp.Succeeds).Allows s es s') (call : NativeCall) : ¬ es.Refuses call := by
  intro refuses
  obtain ⟨e, member⟩ := refuses
  induction allowed with
  | nil s => cases member
  | @cons s s₁ s' x rest here _ inductionHypothesis =>
      cases List.mem_cons.mp member with
      | inl same =>
          subst same
          obtain ⟨⟨answer, succeeded⟩, -⟩ := here
          cases succeeded
      | inr member => exact inductionHypothesis member

theorem Turn.Happens.not_refusesEntry {t : Turn} (happens : t.Happens EvalOp.Succeeds) :
    ¬ t.RefusesEntry := by
  intro refuses
  obtain ⟨module, -, refuses⟩ := refuses
  obtain ⟨entry, -, refused⟩ := refuses.refused
  exact not_refuses_of_succeeds happens.allowed _ refused

/-- As long as no call fails, no change is lost. -/
theorem Runs.keptCurrent {ts : List Turn} {s s' : SessionState}
    (run : Runs EvalOp.Succeeds s ts s') (named : s.breakpoints.Named) {p : Picture}
    (shown : p.Shows s.breakpoints) : KeptCurrent p ts :=
  (run.keptCurrent_iff named shown).mpr fun t member refuses =>
    absurd refuses (run.happens t member).not_refusesEntry

/-- The front end's picture of breakpoints is current after every turn of a run exactly if no turn
loses a change: a module is loaded, a breakpoint of the user is bound in it or fails to be, and then
the one on its entry point is refused. -/
theorem picture_current_iff {config : SessionConfig} {ts : List Turn} {s : SessionState}
    (run : Runs possible (.start config) ts s) :
    KeptCurrent [] ts ↔ ∀ t ∈ ts, t.RefusesEntry → ¬ t.ChangesStatus :=
  run.keptCurrent_iff BreakpointRegistry.named_empty (Picture.shows_empty [])

section EntryModule

/-- The entry point, with code on the first line of a file. -/
def oneLine : ModuleSymbols := ⟨[⟨1, "A.cs", 8, [⟨0, 1, 1, 1, 2⟩], none, [], []⟩], some 1⟩

/-- A target with one module. -/
def oneLineModule : (call : NativeCall) → call.Answer
  | .moduleSymbols _ => some oneLine
  | .createBreakpoint .. => ⟨1⟩
  | _ => default

/-- A breakpoint is asked for before the module is there. -/
def requestThenLoad : List Input :=
  [.asked (.setBreakpoints "A.cs" [⟨1, none, none⟩]),
    .notified (.moduleLoaded ⟨1, "A", "A.dll"⟩)]

def stoppingAtEntry : SessionState := .start { stopAtEntry := true }

def boundModule : List Turn := turns oneLineModule requestThenLoad stoppingAtEntry

theorem runs_boundModule :
    Runs EvalOp.Succeeds stoppingAtEntry boundModule (afterTurns stoppingAtEntry boundModule) :=
  runs_turns oneLineModule requestThenLoad stoppingAtEntry

theorem picture_current_boundModule :
    Runs EvalOp.Succeeds stoppingAtEntry boundModule (afterTurns stoppingAtEntry boundModule) ∧
      boundModule.map (·.told.map (·.verified)) = [[false], [true]] ∧
      KeptCurrent [] boundModule := by
  refine ⟨runs_boundModule, by decide +kernel, (picture_current_iff runs_boundModule).mpr ?_⟩
  intro t member refuses
  exact absurd refuses (runs_boundModule.happens t member).not_refusesEntry

/-! The same target, but no breakpoint can be created. -/

def refusing : (op : EvalOp) → op.Reply
  | .native (.createBreakpoint ..) => .error (.protocol "no")
  | op => replyOf oneLineModule op

def respondRefusing (s : SessionState) :
    (op : WorkOp SessionState SessionEvent) → op.Reply × SessionState
  | .eval op => (refusing op, s)
  | .update f => (s, f s)
  | .emit _ | .acquire _ | .release _ => ((), s)

def Input.refused (input : Input) (s : SessionState) : Turn :=
  let ended := input.task.simulate respondRefusing s
  ⟨input, s, ended.1, ended.2.2, ended.2.1⟩

theorem happens_refused (input : Input) (s : SessionState) :
    (input.refused s).Happens fun _ => True where
  plays := Program.plays_simulate (E := workEffect SessionState SessionEvent) respondRefusing
    input.task s
  allowed := by
    refine Program.allows_simulate (E := workEffect SessionState SessionEvent) ?_ input.task s
    intro s op
    cases op with
    | eval op => exact ⟨trivial, rfl⟩
    | update f => exact ⟨rfl, rfl⟩
    | emit event => rfl
    | acquire lock => rfl
    | release lock => rfl

/-- The breakpoint waits for the module. -/
def awaitingModule : Turn :=
  (Input.asked (.setBreakpoints "A.cs" [⟨1, none, none⟩])).refused stoppingAtEntry

/-- The module comes, with neither a breakpoint for the user nor one on the entry point. -/
def refusedModule : Turn :=
  (Input.notified (.moduleLoaded ⟨1, "A", "A.dll"⟩)).refused awaitingModule.after

/-- The breakpoint has failed, and the front end goes on waiting for it. -/
theorem picture_lost_refusedModule :
    Runs (fun _ => True) stoppingAtEntry [awaitingModule, refusedModule] refusedModule.after ∧
      awaitingModule.told = [⟨1, false, "A.cs", 1, none, Binding.pending.message?⟩] ∧
      refusedModule.told = [] ∧
      (refusedModule.after.breakpoints.get? 1).map Breakpoint.info =
        some ⟨1, false, "A.cs", 1, none, some "Could not set breakpoint: Protocol error: no"⟩ ∧
      ¬ KeptCurrent [] [awaitingModule, refusedModule] := by
  have waiting : awaitingModule.told = [⟨1, false, "A.cs", 1, none, Binding.pending.message?⟩] := by
    decide +kernel
  have nothing : refusedModule.told = [] := by decide +kernel
  have failed : (refusedModule.after.breakpoints.get? 1).map Breakpoint.info =
      some ⟨1, false, "A.cs", 1, none, some "Could not set breakpoint: Protocol error: no"⟩ := by
    decide +kernel
  refine ⟨?_, waiting, nothing, failed, fun kept => ?_⟩
  · exact .cons (happens_refused _ _) (.cons (happens_refused _ _) (.nil _))
  · obtain ⟨-, current, -⟩ := kept
    obtain ⟨b, here, status⟩ := Option.map_eq_some_iff.mp failed
    have shown := current 1 b here
    rw [waiting, nothing, status] at shown
    exact absurd shown (by decide)

end EntryModule

end Session

end ManagedDebugger
