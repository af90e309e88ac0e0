import ManagedDebugger.Proofs.Breakpoint.Granted
import ManagedDebugger.Proofs.Session.Interleaving
import ManagedDebugger.Proofs.Session.Turn

/-!
# A request for breakpoints beside a module that is loaded

A request for breakpoints first reads which modules are loaded, and then works on the breakpoints;
the dispatcher enters a module that was loaded, and then works on the breakpoints too. Each of them
holds the lock of the breakpoints for its work, but the list of modules is read before that. So the
dispatcher may come between the two: it finds no breakpoint to bind yet, and the request does not
know of the module any more.
-/

namespace ManagedDebugger

namespace Session

variable {α : Type}

/-- The breakpoints in the state of a session. -/
abbrev breakpointsOf : SessionState → BreakpointRegistry := SessionState.breakpoints

/-- What a task does to the breakpoints while it holds their lock. -/
abbrev BreakpointWork := Critical SessionState SessionEvent .breakpoints breakpointsOf

/-- The work is what a program on the breakpoints makes of what it found. -/
structure BreakpointWork.Runs (work : BreakpointWork)
    (p : SymbolTable → BreakpointRegistry → Program nativeEffect (α × BreakpointRegistry)) :
    Prop where
  put : work.put = fun s => { s with breakpoints := work.stored }
  plays : ∃ calls a, work.calls = calls.map .ofNative ∧
    (p work.seen.symbols work.seen.breakpoints).Plays calls (a, work.stored)

theorem exists_breakpointWork
    {p : SymbolTable → BreakpointRegistry → Program nativeEffect (α × BreakpointRegistry)}
    {es : List (Exchange (workEffect SessionState SessionEvent))} {a : α}
    (played : (onBreakpoints p).Plays es a) (before after)
    (apart : ∀ x ∈ before ++ after,
      WorkOp.Keeps breakpointsOf x.op ∧ ¬ WorkOp.Uses .breakpoints x.op) :
    ∃ work : BreakpointWork, work.before = before ∧ work.after = after ∧
      work.trace = before ++ (es ++ after) ∧ work.Runs p := by
  obtain ⟨inside, worked, rfl⟩ := Job.plays_locked_iff.mp played
  obtain ⟨seen, rest, rfl, found⟩ := Job.plays_update_bind_iff.mp worked
  obtain ⟨calls, ⟨b, stored⟩, put, called, changed, rfl⟩ := Program.plays_bind_iff.mp found
  obtain ⟨ops, evaluated, rfl⟩ := Program.plays_working_iff.mp called
  obtain ⟨calls, answered, rfl⟩ := Program.plays_evaluating_iff.mp evaluated
  obtain ⟨replaced, none, rfl, ended⟩ := Job.plays_update_bind_iff.mp changed
  obtain ⟨rfl, rfl⟩ := Program.plays_done_iff.mp ended
  let work : BreakpointWork :=
    { before, seen, calls := calls.map .ofNative, replaced, after, apart
      put := fun s => { s with breakpoints := stored }
      overwrites := fun _ _ => rfl }
  refine ⟨work, rfl, rfl, ?_, rfl, calls, _, rfl, answered⟩
  simp [Critical.trace, Critical.inside, work]

/-- The list of modules is taken before the lock. -/
theorem plays_setBreakpoints {file : String} {requests : List BreakpointRequest}
    {es : List (Exchange (workEffect SessionState SessionEvent))} {infos : List BreakpointInfo}
    (played : (setBreakpoints file requests).Plays es infos) :
    ∃ (s : SessionState) (work : BreakpointWork), es = work.trace ∧
      work.before = [⟨.update fun s => s, s⟩] ∧ work.after = [] ∧
      work.Runs fun symbols r =>
        r.setBreakpoints symbols (s.process.modules.map (·.id)) file requests := by
  obtain ⟨s, rest, rfl, worked⟩ := Job.plays_update_bind_iff.mp played
  obtain ⟨work, before, after, trace, runs⟩ :=
    exists_breakpointWork worked [⟨.update fun s => s, s⟩] [] (by simp [WorkOp.Keeps, WorkOp.Uses])
  refine ⟨s, work, ?_, before, after, runs⟩
  rw [trace, List.append_nil]
  rfl

/-- An operation that leaves what is known of modules as it is. -/
structure Steady (op : WorkOp SessionState SessionEvent) : Prop where
  symbols : op.Keeps SessionState.symbols
  modules : op.Keeps fun s => s.process.modules

/-- And one that has nothing to do with the breakpoints either. -/
structure Aside (op : WorkOp SessionState SessionEvent) : Prop extends Steady op where
  breakpoints : op.Keeps breakpointsOf
  lock : ¬ op.Uses .breakpoints

namespace Steady

theorem acquire (lock : Lock) : Steady (.acquire lock) := ⟨trivial, trivial⟩

theorem release (lock : Lock) : Steady (.release lock) := ⟨trivial, trivial⟩

theorem get : Steady (.update fun s => s) := ⟨fun _ => rfl, fun _ => rfl⟩

end Steady

namespace Aside

theorem eval (op : EvalOp) : Aside (.eval op) := ⟨⟨trivial, trivial⟩, trivial, id⟩

theorem emit (event : SessionEvent) : Aside (.emit event) := ⟨⟨trivial, trivial⟩, trivial, id⟩

theorem get : Aside (.update fun s => s) := ⟨.get, fun _ => rfl, id⟩

theorem process {f : ProcessState → ProcessState} (modules : ∀ p, (f p).modules = p.modules) :
    Aside (.update fun s => { s with process := f s.process }) :=
  ⟨⟨fun _ => rfl, fun s => modules s.process⟩, fun _ => rfl, id⟩

end Aside

theorem BreakpointWork.Runs.steady {work : BreakpointWork}
    {p : SymbolTable → BreakpointRegistry → Program nativeEffect (α × BreakpointRegistry)}
    (runs : work.Runs p) : ∀ x ∈ work.inside, Steady x.op := by
  refine List.forall_mem_cons.mpr ⟨.get, List.forall_mem_append.mpr ⟨fun x among => ?_, ?_⟩⟩
  · obtain ⟨y, -, rfl⟩ := List.mem_map.mp among
    exact (Aside.eval y.op).toSteady
  · refine List.forall_mem_singleton.mpr ?_
    rw [runs.put]
    exact ⟨fun _ => rfl, fun _ => rfl⟩

theorem aside_reportChanged (changed : List BreakpointInfo) :
    (reportChanged changed).Only Aside := by
  induction changed with
  | nil => exact .done _
  | cons info rest inductionHypothesis => exact .perform (.emit _) fun _ => inductionHypothesis

theorem aside_modifyProcess {f : ProcessState → ProcessState}
    (modules : ∀ p, (f p).modules = p.modules) : (modifyProcess f).Only Aside :=
  .perform (.process modules) fun _ => .done _

theorem aside_breakAtEntry (module : ModuleId) : (breakAtEntry module).run.Only Aside := by
  refine .run_bind (.bind (.perform .get fun _ => .done _) fun _ => .done _) fun s => ?_
  split
  · split
    · exact .done _
    · refine .run_bind (.perform (.eval _) fun _ => .done _) fun b => ?_
      exact .bind (aside_modifyProcess fun _ => rfl) fun _ => .done _
  · exact .done _

theorem aside_apply (action : Action) : (apply action).Only Aside := by
  cases action with
  | resume => exact .perform (.eval _) fun _ => .done _
  | stop stop =>
      refine .bind (aside_modifyProcess fun _ => rfl) fun _ => .bind ?_ fun _ => ?_
      · refine .perform (.eval _) fun reply => ?_
        cases reply with
        | ok frames => exact .perform .get fun _ => .done _
        | error e => exact .done _
      · exact .perform (.emit _) fun _ => .done _
  | hold => exact .done _

/-- What the dispatcher does when it has tried the breakpoints in a module. -/
theorem aside_announce (module : ModuleInfo) (changed : List BreakpointInfo) :
    (do
      breakAtEntry module.id
      Work.ofJob (Job.emit (.moduleLoaded module.name module.path))
      Work.ofJob (reportChanged changed)
      return Action.resume : SessionWork Action).run.Only Aside := by
  refine .run_bind (aside_breakAtEntry module.id) fun _ => .run_bind ?_ fun _ => .run_bind ?_ ?_
  · exact .bind (.perform (.emit _) fun _ => .done _) fun _ => .done _
  · exact .bind (aside_reportChanged changed) fun _ => .done _
  · exact fun _ => .done _

section Entering

variable (module : ModuleInfo) (symbols : ModuleSymbols)

abbrev readsSymbols : Exchange (workEffect SessionState SessionEvent) :=
  ⟨.eval (.native (.moduleSymbols module.id)), .ok (some symbols)⟩

abbrev addsSymbols (s : SessionState) : Exchange (workEffect SessionState SessionEvent) :=
  ⟨.update fun s => { s with symbols := s.symbols.add module.id symbols }, s⟩

abbrev appendsModule (s : SessionState) : Exchange (workEffect SessionState SessionEvent) :=
  ⟨.update fun s =>
    { s with process := { s.process with modules := s.process.modules ++ [module] } }, s⟩

end Entering

/-- A module that was loaded is entered before the lock is taken. -/
theorem plays_moduleLoaded {module : ModuleInfo} {symbols : ModuleSymbols}
    {es : List (Exchange (workEffect SessionState SessionEvent))}
    (played : (handle (.moduleLoaded module)).Plays es ())
    (read : es.head? = some (readsSymbols module symbols)) :
    ∃ (s₁ s₂ : SessionState) (work : BreakpointWork), es = work.trace ∧
      work.before = [readsSymbols module symbols, addsSymbols module symbols s₁,
        appendsModule module s₂] ∧
      (∀ x ∈ work.after, Aside x.op) ∧
      work.Runs fun symbols r => r.moduleLoaded symbols module.id := by
  obtain ⟨first, decided, second, decides, applied, rfl⟩ := Program.plays_bind_iff.mp played
  obtain ⟨reply, rest, rfl, continued⟩ := Program.plays_perform_iff.mp decides
  obtain ⟨⟨⟩⟩ := read
  have enters : (do
      Work.ofJob (Job.modify fun s => { s with symbols := s.symbols.add module.id symbols })
      Work.ofJob (modifyProcess fun p => { p with modules := p.modules ++ [module] })
      let changed ← Work.ofJob (onBreakpoints fun symbols r => r.moduleLoaded symbols module.id)
      breakAtEntry module.id
      Work.ofJob (Job.emit (.moduleLoaded module.name module.path))
      Work.ofJob (reportChanged changed)
      return Action.resume : SessionWork Action).run.Plays rest decided := continued
  obtain ⟨_, ⟨⟩, _, added, appends, rfl⟩ := Work.plays_ofJob_bind_iff.mp enters
  obtain ⟨s₁, rfl, -⟩ := Job.plays_update_iff.mp added
  obtain ⟨_, ⟨⟩, _, appended, tries, rfl⟩ := Work.plays_ofJob_bind_iff.mp appends
  obtain ⟨s₂, rfl, -⟩ := Job.plays_update_iff.mp appended
  obtain ⟨_, changed, rest, tried, announces, rfl⟩ := Work.plays_ofJob_bind_iff.mp tries
  have after : ∀ x ∈ rest ++ second, Aside x.op := by
    refine List.forall_mem_append.mpr ⟨aside_announce module changed rest decided announces, ?_⟩
    cases decided with
    | ok action => exact aside_apply action second () applied
    | error e => exact aside_apply .resume second () applied
  let before := [readsSymbols module symbols, addsSymbols module symbols s₁,
    appendsModule module s₂]
  have aside : ∀ x ∈ before ++ (rest ++ second),
      WorkOp.Keeps breakpointsOf x.op ∧ ¬ WorkOp.Uses .breakpoints x.op := by
    refine List.forall_mem_append.mpr ⟨?_, fun x among => ?_⟩
    · simp [before, WorkOp.Keeps, WorkOp.Uses]
    · exact ⟨(after x among).breakpoints, (after x among).lock⟩
  obtain ⟨work, first, last, trace, runs⟩ := exists_breakpointWork tried before _ aside
  refine ⟨s₁, s₂, work, ?_, first, last ▸ after, runs⟩
  rw [trace]
  simp [before]

end Session

open Session

/-- One for each of the tasks. -/
def TaskId.elim {α : Type} (request dispatcher : α) : TaskId → α
  | .request => request
  | .dispatcher => dispatcher

/-- A request for breakpoints and a module that is loaded, from the state before both of them to the
state when both are over. -/
structure ModuleRace where
  before : SessionState
  file : String
  requests : List BreakpointRequest
  module : ModuleInfo
  symbols : ModuleSymbols
  schedule : Schedule SessionState SessionEvent
  after : SessionState

namespace ModuleRace

/-- Both tasks run in some order, the module has symbols, and the target grants every breakpoint. -/
structure Happens (race : ModuleRace) : Prop where
  addressed : race.before.breakpoints.Addressed
  few : race.requests.length ≤ UInt32.size
  goes : ∃ holder, (Shared.free race.before).Goes race.schedule ⟨race.after, holder⟩
  asked : ∃ infos,
    (setBreakpoints race.file race.requests).Plays (race.schedule.of .request) infos
  notified : (handle (.moduleLoaded race.module)).Plays (race.schedule.of .dispatcher) ()
  read : (race.schedule.of .dispatcher).head? = some (readsSymbols race.module race.symbols)
  granted : ∀ t method offset reply,
    (t, ⟨.eval (.native (.createBreakpoint method offset)), reply⟩) ∈ race.schedule →
      ∃ handle, reply = .ok handle

/-- The symbols that are known with those of the module. -/
def known (race : ModuleRace) : SymbolTable := race.before.symbols.add race.module.id race.symbols

/-- The modules that were loaded when the request took the list of them. -/
def listed (race : ModuleRace) : List ModuleId :=
  match race.schedule.of .request with
  | ⟨.update _, s⟩ :: _ => s.process.modules.map (·.id)
  | _ => []

/-- The dispatcher tried the breakpoints before the request put its own in, and the request looked
for a place in none but other modules. -/
def Overlooks (race : ModuleRace) (line : UInt32) : Prop :=
  race.schedule.firstToTake .breakpoints = some .dispatcher ∧
    race.known.place? race.listed race.file line = none

/-- What the two tasks did. -/
structure Parts (race : ModuleRace) where
  list : SessionState
  added : SessionState
  appended : SessionState
  work : TaskId → BreakpointWork
  whole : ∀ t, race.schedule.of t = (work t).trace
  lists : (work .request).before = [⟨.update fun s => s, list⟩]
  enters : (work .dispatcher).before = [readsSymbols race.module race.symbols,
    addsSymbols race.module race.symbols added, appendsModule race.module appended]
  aside : ∀ t, ∀ x ∈ (work t).after, Aside x.op
  sets : (work .request).Runs fun symbols r =>
    r.setBreakpoints symbols (list.process.modules.map (·.id)) race.file race.requests
  retries : (work .dispatcher).Runs fun symbols r => r.moduleLoaded symbols race.module.id

variable {race : ModuleRace}

theorem Happens.exists_parts (happens : race.Happens) : Nonempty race.Parts := by
  obtain ⟨infos, asked⟩ := happens.asked
  obtain ⟨list, request, whole, lists, ended, sets⟩ := plays_setBreakpoints asked
  obtain ⟨added, appended, dispatcher, whole', enters, aside, retries⟩ :=
    plays_moduleLoaded happens.notified happens.read
  refine ⟨⟨list, added, appended, TaskId.elim request dispatcher, ?_, lists, enters, ?_, sets,
    retries⟩⟩
  · intro t
    cases t with
    | request => exact whole
    | dispatcher => exact whole'
  · intro t
    cases t with
    | request => exact ended ▸ List.forall_mem_nil _
    | dispatcher => exact aside

namespace Parts

variable (parts : race.Parts)

include parts

theorem listed_eq : race.listed = parts.list.process.modules.map (·.id) := by
  rw [listed, parts.whole, Critical.trace, parts.lists]
  rfl

/-- Behind what comes before the lock, neither task changes what is known of modules. -/
theorem exists_rest (t : TaskId) : ∃ rest, race.schedule.of t = (parts.work t).before ++ rest ∧
    ∀ x ∈ rest, Steady x.op := by
  refine ⟨_, parts.whole t, ?_⟩
  refine List.forall_mem_cons.mpr ⟨.acquire _, List.forall_mem_append.mpr ⟨?_, ?_⟩⟩
  · cases t with
    | request => exact parts.sets.steady
    | dispatcher => exact parts.retries.steady
  · exact List.forall_mem_cons.mpr
      ⟨.release _, fun x among => (parts.aside t x among).toSteady⟩

theorem steady_request : ∀ x ∈ race.schedule.of .request, Steady x.op := by
  obtain ⟨rest, whole, steady⟩ := parts.exists_rest .request
  rw [whole, parts.lists]
  exact List.forall_mem_cons.mpr ⟨.get, steady⟩

variable {c : Shared SessionState} {earlier later : Schedule SessionState SessionEvent}

/-- The request took the list before the module was entered, or after that. -/
theorem modules_list (goes : (Shared.free race.before).Goes race.schedule c) :
    parts.list.process.modules = race.before.process.modules ∨
      parts.list.process.modules = race.before.process.modules ++ [race.module] := by
  obtain ⟨asked, first, -⟩ := parts.exists_rest .request
  have first : race.schedule.of .request = [] ++ ⟨.update fun s => s, parts.list⟩ :: asked := by
    rw [first, parts.lists]
    rfl
  obtain ⟨earlier, later, split, none, -⟩ := Schedule.of_eq_append_cons first
  obtain ⟨c', goes', here, -⟩ := Shared.goes_update_iff.mp (split ▸ goes)
  have others : ∀ x ∈ earlier.of .request, x.op.Keeps fun s : SessionState => s.process.modules :=
    none ▸ List.forall_mem_nil _
  obtain ⟨rest, whole, steady⟩ := parts.exists_rest .dispatcher
  have within : earlier.of .dispatcher <+:
      [readsSymbols race.module race.symbols, addsSymbols race.module race.symbols parts.added] ++
        appendsModule race.module parts.appended :: rest := by
    have started : earlier.of .dispatcher <+: race.schedule.of .dispatcher := by
      rw [split, Schedule.of_append]
      exact List.prefix_append _ _
    rw [whole, parts.enters] at started
    exact started
  rw [← here]
  have quiet : ∀ x ∈ [readsSymbols race.module race.symbols,
      addsSymbols race.module race.symbols parts.added],
      x.op.Keeps fun s : SessionState => s.process.modules :=
    List.forall_mem_cons.mpr ⟨trivial, List.forall_mem_singleton.mpr fun _ => rfl⟩
  rcases prefix_append_iff.mp within with unentered | ⟨more, beyond, own⟩
  · refine .inl (goes'.keeps (TaskId.forall_of_other (t := .dispatcher) ?_ others))
    exact fun x among => quiet x (unentered.subset among)
  · rcases List.prefix_cons_iff.mp beyond with rfl | ⟨more, rfl, behind⟩
    · refine .inl (goes'.keeps (TaskId.forall_of_other (t := .dispatcher) ?_ others))
      rwa [own, List.append_nil]
    · have unentered : parts.appended.process.modules = race.before.process.modules :=
        goes'.reads own quiet others
      refine .inr ((goes'.changes own ?_ others).trans ?_)
      · exact fun x among => (steady x (behind.subset among)).modules
      · exact congrArg (· ++ [race.module]) unentered

/-- Whoever comes behind the entering of the module knows its symbols. -/
theorem symbols_behind {t : TaskId} {seen : SessionState}
    (goes : (Shared.free race.before).Goes race.schedule c)
    (split : race.schedule = earlier ++ (t, ⟨.update fun s => s, seen⟩) :: later)
    (behind : (parts.work .dispatcher).before <+: earlier.of .dispatcher) :
    seen.symbols = race.known := by
  obtain ⟨c', goes', rfl, -⟩ := Shared.goes_update_iff.mp (split ▸ goes)
  obtain ⟨rest, whole, steady⟩ := parts.exists_rest .dispatcher
  obtain ⟨more, own⟩ := behind
  have among : ∀ x ∈ more, x ∈ rest := by
    rw [split, Schedule.of_append, ← own, List.append_assoc] at whole
    rw [← List.append_cancel_left whole]
    exact fun x => List.mem_append_left _
  have others : ∀ x ∈ earlier.of .request, x.op.Keeps SessionState.symbols := by
    intro x among
    refine (parts.steady_request x ?_).symbols
    rw [split, Schedule.of_append]
    exact List.mem_append_left _ among
  have own : earlier.of .dispatcher = [readsSymbols race.module race.symbols] ++
      addsSymbols race.module race.symbols parts.added ::
        appendsModule race.module parts.appended :: more := by
    rw [← own, parts.enters]
    rfl
  have unentered : parts.added.symbols = race.before.symbols :=
    goes'.reads own (List.forall_mem_singleton.mpr trivial) others
  have entered : c'.state.symbols = parts.added.symbols.add race.module.id race.symbols := by
    refine goes'.changes own ?_ others
    exact List.forall_mem_cons.mpr ⟨fun _ => rfl, fun x here => (steady x (among x here)).symbols⟩
  rw [entered, unentered, known]

theorem symbols_dispatcher (goes : (Shared.free race.before).Goes race.schedule c) :
    (parts.work .dispatcher).seen.symbols = race.known := by
  let work := parts.work .dispatcher
  have whole : race.schedule.of .dispatcher = (work.before ++ [.taken .breakpoints]) ++
      ⟨.update fun s => s, work.seen⟩ :: (work.calls.map .ofEval ++
        ⟨.update work.put, work.replaced⟩ :: .letGo .breakpoints :: work.after) := by
    rw [parts.whole, Critical.trace, Critical.inside]
    simp [work]
  obtain ⟨earlier, later, split, before, -⟩ := Schedule.of_eq_append_cons whole
  refine parts.symbols_behind goes split ?_
  rw [before]
  exact List.prefix_append _ _

theorem granted (happens : race.Happens) (t : TaskId) {calls : List (Exchange nativeEffect)}
    (same : (parts.work t).calls = calls.map .ofNative) : ∀ x ∈ calls, x.Granted := by
  rintro ⟨op, reply⟩ among
  have inside : (.ofEval (.ofNative ⟨op, reply⟩)) ∈ (parts.work t).inside := by
    refine List.mem_cons_of_mem _ (List.mem_append_left _ (List.mem_map_of_mem ?_))
    rw [same]
    exact List.mem_map_of_mem among
  have scheduled : (t, .ofEval (.ofNative ⟨op, reply⟩)) ∈ race.schedule := by
    rw [← Schedule.mem_of, parts.whole, Critical.trace]
    exact List.mem_append_right _ (List.mem_cons_of_mem _ (List.mem_append_left _ inside))
  cases op with
  | createBreakpoint method offset => exact happens.granted t method offset reply scheduled
  | _ => trivial

/-- What the request makes of its breakpoints. -/
theorem settled_request (happens : race.Happens)
    (addressed : (parts.work .request).seen.breakpoints.Addressed) :
    (parts.work .request).stored.Addressed ∧
      List.Forall₂ (fun id request => (parts.work .request).stored.SettledAs id
          (.ofRequest id race.file request)
          ((parts.work .request).seen.symbols.place? race.listed race.file request.line))
        ((parts.work .request).stored.idsOf race.file) race.requests := by
  obtain ⟨calls, infos, same, played⟩ := parts.sets.plays
  rw [parts.listed_eq]
  refine ⟨(BreakpointRegistry.sets_of_plays addressed played).addressed, ?_⟩
  exact BreakpointRegistry.granted_setBreakpoints addressed happens.few
    (parts.granted happens .request same) played

/-- What the dispatcher makes of the breakpoints that are there already. -/
theorem settled_dispatcher (happens : race.Happens)
    (addressed : (parts.work .dispatcher).seen.breakpoints.Addressed) :
    (parts.work .dispatcher).stored.Addressed ∧
      (∀ file, (parts.work .dispatcher).stored.idsOf file =
        (parts.work .dispatcher).seen.breakpoints.idsOf file) ∧
      ∀ id b found, (parts.work .dispatcher).seen.breakpoints.SettledAs id b found →
        (parts.work .dispatcher).stored.SettledAs id b (found.or
          ((parts.work .dispatcher).seen.symbols.resolve? race.module.id b.file b.line)) := by
  obtain ⟨calls, changed, same, played⟩ := parts.retries.plays
  have binds := BreakpointRegistry.binds_of_plays addressed played
  refine ⟨binds.addressed, fun file => ?_, fun id b found settled => ?_⟩
  · rw [BreakpointRegistry.idsOf, binds.byFile]
    rfl
  · exact BreakpointRegistry.granted_moduleLoaded addressed
      (parts.granted happens .dispatcher same) played settled

end Parts

/-- The places that the two tasks find for the lines of the file. -/
theorem Happens.exists_found (happens : race.Happens) :
    ∃ found : UInt32 → Option ResolvedBreakpoint,
    (∀ line, race.known.resolve? race.module.id race.file line ≠ none →
      (found line = none ↔ race.Overlooks line)) ∧
    List.Forall₂ (fun id request => race.after.breakpoints.SettledAs id
        (.ofRequest id race.file request) (found request.line))
      (race.after.breakpoints.idsOf race.file) race.requests := by
  obtain ⟨parts⟩ := happens.exists_parts
  obtain ⟨holder, goes⟩ := happens.goes
  obtain ⟨t, first, reads, passes, leaves, earlier, later, split, behind⟩ := goes.serial parts.whole
  cases t with
  | request =>
      change (parts.work .request).seen.breakpoints = race.before.breakpoints at reads
      change (parts.work .dispatcher).seen.breakpoints = (parts.work .request).stored at passes
      change race.after.breakpoints = (parts.work .dispatcher).stored at leaves
      obtain ⟨addressed, settled⟩ := parts.settled_request happens (reads ▸ happens.addressed)
      obtain ⟨-, listed, retried⟩ := parts.settled_dispatcher happens (passes ▸ addressed)
      rw [passes, parts.symbols_dispatcher goes] at retried
      rw [leaves, listed, passes]
      -- what the request leaves pending, the dispatcher tries once more
      let found (line : UInt32) : Option ResolvedBreakpoint :=
        ((parts.work .request).seen.symbols.place? race.listed race.file line).or
          (race.known.resolve? race.module.id race.file line)
      refine ⟨found, fun line resolved => ?_, settled.imp fun id request => retried id _ _⟩
      have placed : found line ≠ none := fun nowhere =>
        resolved (Option.or_eq_none_iff.mp nowhere).2
      have notOverlooked : ¬ race.Overlooks line := by
        rintro ⟨other, -⟩
        cases first.symm.trans other
      simp [placed, notOverlooked]
  | dispatcher =>
      change (parts.work .dispatcher).seen.breakpoints = race.before.breakpoints at reads
      change (parts.work .request).seen.breakpoints = (parts.work .dispatcher).stored at passes
      change race.after.breakpoints = (parts.work .request).stored at leaves
      obtain ⟨addressed, -, -⟩ := parts.settled_dispatcher happens (reads ▸ happens.addressed)
      obtain ⟨-, settled⟩ := parts.settled_request happens (passes ▸ addressed)
      rw [show (parts.work .request).seen.symbols = race.known from
        parts.symbols_behind goes split behind] at settled
      refine ⟨race.known.place? race.listed race.file, fun line _ => ?_, leaves ▸ settled⟩
      exact ⟨fun nowhere => ⟨first, nowhere⟩, And.right⟩

/-- When both tasks are over, a breakpoint on a line of the module is bound, unless the dispatcher
was in time to look for it and the request was not in time to look for the module. -/
theorem Happens.bound_unless_overlooked (happens : race.Happens) :
    (race.listed = race.before.process.modules.map (·.id) ∨
      race.listed = race.before.process.modules.map (·.id) ++ [race.module.id]) ∧
    List.Forall₂ (fun id request => ∃ binding : Binding,
        race.after.breakpoints.get? id =
            some { Breakpoint.ofRequest id race.file request with binding } ∧
          (race.known.resolve? race.module.id race.file request.line ≠ none →
            (binding = .pending ↔ race.Overlooks request.line) ∧
            (binding.isBound = true ↔ ¬ race.Overlooks request.line)))
      (race.after.breakpoints.idsOf race.file) race.requests := by
  constructor
  · obtain ⟨parts⟩ := happens.exists_parts
    obtain ⟨holder, goes⟩ := happens.goes
    rw [parts.listed_eq]
    rcases parts.modules_list goes with same | more
    · exact .inl (congrArg _ same)
    · refine .inr ?_
      rw [more, List.map_append]
      rfl
  · obtain ⟨found, missing, settled⟩ := happens.exists_found
    refine settled.imp fun id request ⟨binding, here, settles⟩ => ?_
    refine ⟨binding, here, fun resolved => ?_⟩
    rw [← missing request.line resolved]
    exact ⟨settles.eq_pending_iff, settles.isBound_iff⟩

section FirstLine

open BreakpointRegistry

/-- A target with one module, in which nothing fails. -/
def firstLineModule : (call : NativeCall) → call.Answer
  | .moduleSymbols _ => some (firstLine "A.cs")
  | .createBreakpoint .. => ⟨1⟩
  | _ => default

/-- A breakpoint on the first line of a file and the module with that line, in some turns. -/
def ranFirstLine (turns : List TaskId) :=
  Shared.run (replyOf firstLineModule) turns (.free (.start {}))
    (setBreakpoints "A.cs" [⟨1, none, none⟩]) (handle (.moduleLoaded ⟨⟨1⟩, "A", "A.dll"⟩))

def ofTurns (turns : List TaskId) : ModuleRace where
  before := .start {}
  file := "A.cs"
  requests := [⟨1, none, none⟩]
  module := ⟨⟨1⟩, "A", "A.dll"⟩
  symbols := firstLine "A.cs"
  schedule := (ranFirstLine turns).1
  after := (ranFirstLine turns).2.1.state

/-- Turns that are enough for both tasks make up a race. -/
theorem happens_ofTurns {turns : List TaskId}
    (asked : (Shared.result? (ranFirstLine turns).2.2.1).isSome = true)
    (notified : Shared.result? (ranFirstLine turns).2.2.2 = some ()) :
    (ofTurns turns).Happens := by
  have ran : Shared.Ran (replyOf firstLineModule) _ _ _ (ranFirstLine turns) :=
    Shared.ran_run turns _ _ _
  obtain ⟨infos, asked⟩ := Option.isSome_iff_exists.mp asked
  have request := ran.request _ _ (Shared.plays_of_result? asked)
  have dispatcher := ran.dispatcher _ _ (Shared.plays_of_result? notified)
  rw [List.append_nil] at request dispatcher
  have few : 1 ≤ UInt32.size := by decide
  refine ⟨.empty, few, ⟨_, ran.goes⟩, ⟨infos, request⟩, dispatcher, ?_, ?_⟩
  · obtain ⟨first, decided, second, decides, -, whole⟩ := Program.plays_bind_iff.mp dispatcher
    obtain ⟨reply, rest, rfl, -⟩ := Program.plays_perform_iff.mp decides
    have among : (.dispatcher, ⟨.eval (.native (.moduleSymbols ⟨1⟩)), reply⟩) ∈
        (ranFirstLine turns).1 := by
      rw [← Schedule.mem_of, whole]
      exact List.mem_cons_self
    obtain rfl := ran.replied _ _ _ among
    exact congrArg List.head? whole
  · intro t method offset reply among
    exact ⟨⟨1⟩, ran.replied t (.native (.createBreakpoint method offset)) reply among⟩

/-- The request takes its list, then the module is loaded, and then the request goes on. -/
def moduleBetween : List TaskId :=
  .request :: List.replicate 12 .dispatcher ++ List.replicate 12 .request

/-- The module has a place for the breakpoint, and nobody looks for it. -/
theorem overlooked_moduleBetween :
    (ofTurns moduleBetween).Happens ∧
      (ofTurns moduleBetween).known.resolve? ⟨1⟩ "A.cs" 1 ≠ none ∧
      ((ofTurns moduleBetween).after.breakpoints.get? 1).map (·.binding) = some .pending := by
  refine ⟨happens_ofTurns ?_ ?_, ?_, ?_⟩ <;> decide +kernel

/-- The request takes its list, the module is entered, and the request takes the lock first. -/
def requestAhead : List TaskId :=
  .request :: List.replicate 3 .dispatcher ++ List.replicate 12 .request ++
    List.replicate 12 .dispatcher

theorem bound_requestAhead :
    (ofTurns requestAhead).Happens ∧
      (ofTurns requestAhead).known.resolve? ⟨1⟩ "A.cs" 1 ≠ none ∧
      ∃ binding : Binding, (ofTurns requestAhead).after.breakpoints.get? 1 =
          some { Breakpoint.ofRequest 1 "A.cs" ⟨1, none, none⟩ with binding } ∧
        binding.isBound = true := by
  have happens : (ofTurns requestAhead).Happens := happens_ofTurns (by decide +kernel)
    (by decide +kernel)
  have resolved : (ofTurns requestAhead).known.resolve? ⟨1⟩ "A.cs" 1 ≠ none := by decide +kernel
  have ahead : ¬ (ofTurns requestAhead).Overlooks 1 := fun overlooked =>
    absurd overlooked.1 (by decide +kernel)
  have listed : (ofTurns requestAhead).after.breakpoints.idsOf "A.cs" = [1] := by decide +kernel
  have settled := happens.bound_unless_overlooked.2
  rw [show (ofTurns requestAhead).file = "A.cs" from rfl, listed] at settled
  obtain ⟨⟨binding, here, told⟩, -⟩ := List.forall₂_cons.mp settled
  exact ⟨happens, resolved, binding, here, (told resolved).2.mpr ahead⟩

end FirstLine

end ModuleRace

end ManagedDebugger
