import ManagedDebugger.Proofs.Breakpoint.HandedOut
import ManagedDebugger.Proofs.Session.Confined
import ManagedDebugger.Proofs.Session.Evaluations

/-!
# Breakpoints that are kept apart

A session sets breakpoints for the user, one on the entry point, and those of the step in flight. As
long as the target hands out no handle that is in use, a handle of a breakpoint of the user is never
that of another breakpoint. And what the user asked for, with the counts of hits, is touched by two
things only: setting the breakpoints of a file, and a hit.
-/

namespace ManagedDebugger

open Job

variable {possible : Exchange evalEffect → Prop}

namespace Session

/-- The handles of the user's breakpoints, of that on the entry point and of that of the step in
flight. -/
def inUse (s : SessionState) : List NativeBreakpointId :=
  s.breakpoints.handles ++ (s.process.entryBreakpoint.toList ++ s.step.breakpoint?.toList)

theorem mem_inUse_iff {s : SessionState} {handle : NativeBreakpointId} :
    handle ∈ inUse s ↔ handle ∈ s.breakpoints.handles ∨
      s.process.entryBreakpoint = some handle ∨ s.step.breakpoint? = some handle := by
  simp [inUse]

/-- The handles of the user's breakpoints lead to them, and are none of the other ones. -/
structure Apart (s : SessionState) : Prop where
  indexed : s.breakpoints.Indexed
  filed : s.breakpoints.Filed
  entry : ∀ handle, s.process.entryBreakpoint = some handle → handle ∉ s.breakpoints.handles
  step : ∀ handle, s.step.breakpoint? = some handle → handle ∉ s.breakpoints.handles

/-- The target hands out handles that are not in use, and none of them twice. -/
structure HandsOutNew (es : List (Exchange evalEffect)) (s : SessionState) : Prop where
  distinct : (handedOut es).Nodup
  unused : ∀ handle ∈ handedOut es, handle ∉ inUse s

instance (es : List (Exchange evalEffect)) (s : SessionState) : Decidable (HandsOutNew es s) :=
  decidable_of_iff ((handedOut es).Nodup ∧ ∀ handle ∈ handedOut es, handle ∉ inUse s)
    ⟨fun holds => ⟨holds.1, holds.2⟩, fun new => ⟨new.distinct, new.unused⟩⟩

structure StaysApart (es : Transcript) (s s' : SessionState) : Prop where
  apart : Apart s'
  inUse : ∀ handle ∈ inUse s', handle ∈ inUse s ∨ handle ∈ handedOut (evaluations es)

/-- The breakpoints stay apart, and those of the user are those that were asked for before. -/
structure Kept (es : Transcript) (s s' : SessionState) : Prop extends StaysApart es s s' where
  requested : ∀ id, s'.breakpoints.requested? id = s.breakpoints.requested? id
  lastId : s'.breakpoints.lastId = s.breakpoints.lastId

theorem Kept.numbered {es : Transcript} {s s' : SessionState} {n : Nat} (kept : Kept es s s')
    (numbered : s.breakpoints.Numbered n) : s'.breakpoints.Numbered n := by
  refine ⟨kept.lastId.trans numbered.last, fun id file here => numbered.among id file ?_⟩
  rwa [BreakpointRegistry.fileOf?_eq, ← kept.requested, ← BreakpointRegistry.fileOf?_eq]

/-- What is kept if the target hands out new handles only. -/
def Keeps (es : Transcript) (s s' : SessionState) : Prop :=
  Apart s → HandsOutNew (evaluations es) s → Kept es s s'

namespace Keeps

variable {es first second : Transcript} {s s' s'' : SessionState}

theorem append (left : Keeps first s s') (right : Keeps second s' s'') :
    Keeps (first ++ second) s s'' := by
  intro apart new
  obtain ⟨distinct, unused⟩ := new
  rw [evaluations_append, handedOut_append] at distinct unused
  obtain ⟨distinct₁, distinct₂, disjoint⟩ := List.nodup_append.mp distinct
  obtain ⟨unused₁, unused₂⟩ := List.forall_mem_append.mp unused
  have kept := left apart ⟨distinct₁, unused₁⟩
  have new : HandsOutNew (evaluations second) s' := by
    refine ⟨distinct₂, fun handle member used => ?_⟩
    cases kept.inUse handle used with
    | inl before => exact unused₂ handle member before
    | inr handed => exact disjoint handle handed handle member rfl
  have kept' := right kept.apart new
  refine ⟨⟨kept'.apart, fun handle used => ?_⟩, fun id => ?_, kept'.lastId.trans kept.lastId⟩
  · rw [evaluations_append, handedOut_append, List.mem_append]
    cases kept'.inUse handle used with
    | inl between => exact (kept.inUse handle between).imp_right .inl
    | inr handed => exact .inr (.inr handed)
  · exact (kept'.requested id).trans (kept.requested id)

/-- The breakpoints of the user are as before, and whatever else is in use was so or is new. -/
theorem ofSame (breakpoints : s'.breakpoints = s.breakpoints)
    (entry : ∀ handle, s'.process.entryBreakpoint = some handle →
      s.process.entryBreakpoint = some handle ∨ handle ∈ handedOut (evaluations es))
    (step : ∀ handle, s'.step.breakpoint? = some handle →
      s.step.breakpoint? = some handle ∨ handle ∈ handedOut (evaluations es)) : Keeps es s s' := by
  intro apart new
  have free {handle : NativeBreakpointId} (handed : handle ∈ handedOut (evaluations es)) :
      handle ∉ s.breakpoints.handles :=
    fun member => new.unused handle handed (mem_inUse_iff.mpr (.inl member))
  have apart' : Apart s' := by
    constructor
    · rw [breakpoints]
      exact apart.indexed
    · rw [breakpoints]
      exact apart.filed
    · intro handle own
      rw [breakpoints]
      exact (entry handle own).elim (apart.entry handle) free
    · intro handle own
      rw [breakpoints]
      exact (step handle own).elim (apart.step handle) free
  refine ⟨⟨apart', fun handle used => ?_⟩, fun id => by rw [breakpoints], by rw [breakpoints]⟩
  rw [mem_inUse_iff, breakpoints] at used
  rw [mem_inUse_iff]
  obtain old | own | own := used
  · exact .inl (.inl old)
  · exact (entry handle own).imp_left fun before => .inr (.inl before)
  · exact (step handle own).imp_left fun before => .inr (.inr before)

end Keeps

theorem bound_keeps : Bound Keeps where
  nil := fun _ => .ofSame rfl (fun _ => .inl) fun _ => .inl
  append := .append
  told := fun _ _ => .ofSame rfl (fun _ => .inl) fun _ => .inl
  acquired := fun _ _ => .ofSame rfl (fun _ => .inl) fun _ => .inl
  released := fun _ _ => .ofSame rfl (fun _ => .inl) fun _ => .inl
  updated := fun f s inessential => by
    refine .ofSame inessential.breakpoints (fun handle own => .inl ?_) fun handle own => .inl ?_
    · exact inessential.entryBreakpoint.symm.trans own
    · rwa [inessential.step] at own
  evaluated := fun _ _ _ => .ofSame rfl (fun _ => .inl) fun _ => .inl

/-! ## The step in flight and the entry point -/

theorem keeps_onStep {α : Type} {p : StepContext → Stepping α} (command : StepCommand)
    (leaves : ∀ ctx st, (p ctx).Leaves (fun _ => True) st fun ms r st' =>
      Step.Exits (fun _ => True) command st ms r.isOk st') :
    Confined possible Keeps (onStep p) := by
  refine fun s => (plays_onStep p s).mono ?_
  rintro es s' r ⟨-, state, played, -⟩
  refine .ofSame ?_ (fun handle own => .inl ?_) fun handle waits => ?_
  · rw [state]
  · rwa [state] at own
  · rw [← handedOut_marks]
    exact (leaves _ _ _ _ played fun _ _ => trivial).breakpoint waits

theorem keeps_cancelStep : Confined possible Keeps cancelStep := by
  refine .bind bound_keeps (keeps_onStep .cancel fun _ _ => Step.leaves_cancel) fun _ => ?_
  exact .pure bound_keeps _

theorem keeps_start (thread : ThreadId) (kind : StepKind) :
    Confined possible Keeps (onStep fun ctx => Step.start ctx thread kind) :=
  keeps_onStep (.start thread kind) fun ctx _ => Step.leaves_start ctx thread kind

theorem keeps_stepCompletes (thread : ThreadId) (reason : StepReason) :
    Confined possible Keeps (onStep fun ctx => Step.onStepComplete ctx thread reason) := by
  apply keeps_onStep (.complete thread reason)
  intro ctx st
  exact Step.leaves_onStepComplete ctx thread reason

theorem keeps_stepHits (thread : ThreadId) (hit : NativeBreakpointId) :
    Confined possible Keeps (onStep fun ctx => Step.onBreakpoint ctx thread hit) := by
  apply keeps_onStep (.hit thread hit)
  intro ctx st
  exact Step.leaves_onBreakpoint ctx thread hit

theorem keeps_onStepComplete (thread : ThreadId) (reason : StepReason) :
    Confined possible Keeps (onStepComplete thread reason).run :=
  .run_bind bound_keeps (keeps_stepCompletes thread reason) fun _ => .pure bound_keeps _

/-- Whatever is asked of the target, while nothing is kept of the answer. -/
theorem keeps_native (c : NativeCall) :
    Confined possible Keeps (Work.native c : SessionWork c.Answer).run := by
  refine .bind bound_keeps (fun s => ?_) fun _ => .pure bound_keeps _
  refine (ensures_evaluating s).mono ?_
  rintro es _ a ⟨-, rfl, -⟩
  exact .ofSame rfl (fun _ => .inl) fun _ => .inl

theorem keeps_breakAtEntry (module : ModuleId) :
    Confined possible Keeps (breakAtEntry module).run := by
  refine .run_bind bound_keeps (.ofJob bound_keeps (confined_get bound_keeps)) fun s => ?_
  split
  · split
    · exact .pure bound_keeps _
    · rename_i entry _
      intro s
      -- The handle that is handed out here is kept, so the call and the change belong together.
      apply native_bind
      · intro handle _
        apply Work.ensures_ofJob
        refine ensures_update (.ofSame rfl (fun other own => .inr ?_) fun _ => .inl)
        obtain rfl : handle = other := Option.some.inj own
        exact List.mem_singleton.mpr rfl
      · exact fun e _ => .ofSame rfl (fun _ => .inl) fun _ => .inl
  · exact .pure bound_keeps _

/-! ## The breakpoints of the user -/

/-- A use of the user's breakpoints gives them handles that are old, or new. -/
theorem staysApart_ofUse {u : BreakpointUse} {s : SessionState} {es : Transcript}
    (happens : u.Happens) (before : u.before = s.breakpoints) (free : u.NumbersFree)
    (ops : evaluations es = u.exchanges.map .ofNative) (apart : Apart s)
    (new : HandsOutNew (evaluations es) s) : StaysApart es s { s with breakpoints := u.after } := by
  have indexed : u.before.Indexed := before ▸ apart.indexed
  have filed : u.before.Filed := before ▸ apart.filed
  have filed' := happens.filed indexed.toAddressed filed free
  obtain ⟨distinct, unused⟩ := new
  rw [ops] at distinct unused
  obtain ⟨indexed', handles⟩ := happens.handles indexed filed free distinct
    fun handle handed old => unused handle handed (mem_inUse_iff.mpr (.inl (before ▸ old)))
  rw [before] at handles
  have still {handle : NativeBreakpointId} (used : handle ∈ inUse s)
      (other : handle ∉ s.breakpoints.handles) : handle ∉ u.after.handles :=
    fun member => (handles handle member).elim other fun handed => unused handle handed used
  constructor
  · exact {
      indexed := indexed'
      filed := filed'
      entry := fun handle own =>
        still (mem_inUse_iff.mpr (.inr (.inl own))) (apart.entry handle own)
      step := fun handle own =>
        still (mem_inUse_iff.mpr (.inr (.inr own))) (apart.step handle own) }
  · intro handle used
    rw [ops, mem_inUse_iff]
    obtain member | own := mem_inUse_iff.mp used
    · exact (handles handle member).imp_left .inl
    · exact .inl (.inr own)

theorem plays_use {α : Type} {p : Program nativeEffect (α × BreakpointRegistry)} {a : α}
    {calls : List (Exchange nativeEffect)} {r : BreakpointRegistry}
    (played : p.Plays calls (a, r)) : (p.bind fun found => .done found.2).Plays calls r := by
  have whole := played.bind (f := fun found => .done found.2) (.done r)
  rwa [List.append_nil] at whole

theorem keeps_moduleLoaded (module : ModuleId) : Confined possible Keeps
    (onBreakpoints fun symbols r => r.moduleLoaded symbols module) := by
  refine fun s => (plays_onBreakpoints _ s).mono ?_
  rintro es s' infos ⟨-, state, calls, played, ops⟩ apart new
  have happens : BreakpointUse.Happens
      ⟨[], s.symbols, .load module, s.breakpoints, calls, s'.breakpoints⟩ := plays_use played
  have stays := staysApart_ofUse happens rfl trivial ops apart new
  rw [← state] at stays
  have addressed := apart.indexed.toAddressed
  have binds := BreakpointRegistry.binds_of_plays addressed played
  exact ⟨stays, BreakpointRegistry.requested?_of_bindAll addressed played, binds.lastId⟩

theorem keeps_moduleUnloaded (module : ModuleId) : Confined possible Keeps
    (onBreakpoints fun _ r => pure (r.moduleUnloaded module)) := by
  refine fun s => (plays_onBreakpoints _ s).mono ?_
  rintro es s' infos ⟨-, state, calls, played, ops⟩ apart new
  obtain ⟨rfl, same⟩ := Program.plays_done_iff.mp played
  have happens : BreakpointUse.Happens
      ⟨[], s.symbols, .unload module, s.breakpoints, [], s'.breakpoints⟩ :=
    Program.plays_done_iff.mpr ⟨rfl, congrArg Prod.snd same⟩
  have stays := staysApart_ofUse happens rfl trivial ops apart new
  rw [← state] at stays
  have unloads : s.breakpoints.Unloads module s'.breakpoints :=
    happens.does apart.indexed.toAddressed
  exact ⟨stays, unloads.requested?, unloads.lastId⟩

/-- The breakpoints of the file are new and have not been hit, and the other ones are as before. -/
structure SetsAnew (file : String) (requests : List BreakpointRequest) (es : Transcript)
    (s s' : SessionState) : Prop extends StaysApart es s s' where
  sets : ∃ symbols modules,
    BreakpointRegistry.Sets symbols modules s.breakpoints file requests s'.breakpoints
  requested : ∀ id b, s'.breakpoints.requested? id = some b →
    b.file = file ∧ b.hits = 0 ∨ b.file ≠ file ∧ s.breakpoints.requested? id = some b

theorem setsAnew_setBreakpoints (file : String) (requests : List BreakpointRequest)
    (s : SessionState) (free : s.breakpoints.NumbersFree file requests.length) :
    (setBreakpoints file requests).Ensures (alone possible) s fun es s' _ =>
      Apart s → HandsOutNew (evaluations es) s → SetsAnew file requests es s s' := by
  apply update_bind
  refine (plays_onBreakpoints _ s).mono ?_
  rintro es s' infos ⟨-, state, calls, played, ops⟩ apart new
  have happens : BreakpointUse.Happens ⟨_, s.symbols, .set file requests, s.breakpoints, calls,
      s'.breakpoints⟩ := plays_use played
  have stays : StaysApart es s _ := staysApart_ofUse happens rfl free ops apart new
  rw [← state] at stays
  have addressed := apart.indexed.toAddressed
  refine ⟨⟨stays.apart, stays.inUse⟩, ⟨_, _, BreakpointRegistry.sets_of_plays addressed played⟩, ?_⟩
  intro id b requested
  exact BreakpointRegistry.requested?_of_setBreakpoints addressed apart.filed played requested

/-! ## Hits of other breakpoints -/

theorem keeps_takeEntryBreakpoint (hit : NativeBreakpointId) (s : SessionState) :
    (takeEntryBreakpoint hit).Ensures (alone possible) s fun es s' _ =>
      Keeps es s s' ∧ s'.breakpoints = s.breakpoints := by
  refine ensures_update ?_
  dsimp only
  split
  · exact ⟨.ofSame rfl nofun fun _ => .inl, rfl⟩
  · exact ⟨.ofSame rfl (fun _ => .inl) fun _ => .inl, rfl⟩

/-- A hit that is none of a breakpoint of the user counts for none of them. -/
theorem keeps_onUserBreakpoint (thread : ThreadId) {hit : NativeBreakpointId} {s : SessionState}
    (unknown : s.breakpoints.byHandle? hit = none) :
    (onUserBreakpoint thread hit).Ensures (alone possible) s fun es s' _ => Keeps es s s' := by
  refine (plays_onBreakpoints (fun _ r => pure (r.byHandle? hit, r)) s).bind ?_
  rintro es s' found ⟨-, state, calls, played, -⟩
  obtain ⟨-, same⟩ := Program.plays_done_iff.mp played
  obtain ⟨rfl, kept⟩ := Prod.mk.inj same
  rw [unknown]
  refine Program.ensures_done_iff.mpr (.ofSame kept (fun _ own => .inl ?_) fun _ own => .inl ?_)
  · rwa [state] at own
  · rwa [state] at own

theorem keeps_unknownHit (thread : ThreadId) {hit : NativeBreakpointId} {s : SessionState}
    (unknown : s.breakpoints.byHandle? hit = none) :
    (onBreakpointHit thread hit).run.Ensures (alone possible) s fun es s' _ => Keeps es s s' := by
  refine Work.ofJob_bind (keeps_takeEntryBreakpoint hit s) ?_
  rintro first s₁ taken ⟨kept, same⟩
  cases taken with
  | true =>
      have switchedOff : Confined possible Keeps
          (do
            Work.native (.setBreakpointActive hit false)
            return .stop ⟨thread, .entry, none, none⟩ : SessionWork Action).run :=
        .run_bind bound_keeps (keeps_native _) fun _ => .pure bound_keeps _
      exact (switchedOff s₁).mono fun _ _ _ kept' => kept.append kept'
  | false =>
      have stepped : (onStep fun ctx => Step.onBreakpoint ctx thread hit).Ensures (alone possible) s₁
          fun es s' _ => Keeps es s₁ s' ∧ s' = { s₁ with step := s'.step } :=
        (keeps_stepHits thread hit s₁).and ((plays_onStep _ s₁).mono fun _ _ _ played => played.2.1)
      refine Program.Ensures.run_bind
        (p := ExceptT.mk (onStep fun ctx => Step.onBreakpoint ctx thread hit)) stepped ?_ ?_
      · rintro second s₂ outcome ⟨kept', state⟩
        cases outcome with
        | some outcome =>
            refine Program.ensures_done_iff.mpr ?_
            rw [List.append_nil]
            exact kept.append kept'
        | none =>
            have unknown : s₂.breakpoints.byHandle? hit = none := by
              rw [state, same]
              exact unknown
            refine Work.ensures_ofJob ((keeps_onUserBreakpoint thread unknown).mono ?_)
            exact fun _ _ _ kept'' => kept.append (kept'.append kept'')
      · exact fun second s₂ e holds => kept.append holds.1

/-! ## Turns -/

theorem keeps_onProcessCreated (pid : UInt32) :
    Confined possible Keeps (onProcessCreated pid) := by
  refine .bind bound_keeps (fun s => ?_) fun _ => .pure bound_keeps _
  exact ensures_update (.ofSame rfl (fun _ => .inl) fun _ => .inl)

theorem keeps_configurationDone : Confined possible Keeps configurationDone.run := by
  refine .run_bind bound_keeps (.ofJob bound_keeps fun s => ?_) fun held => ?_
  · exact ensures_update (.ofSame rfl (fun _ => .inl) fun _ => .inl)
  · cases held with
    | true => exact keeps_native .continueProcess
    | false => exact .pure bound_keeps _

theorem keeps_remains {input : Input}
    (noHit : ∀ thread hit, input ≠ .notified (.breakpointHit thread hit))
    (noSet : ∀ file requests, input ≠ .asked (.setBreakpoints file requests)) :
    input.Remains possible Keeps := by
  cases input with
  | notified event =>
      cases event with
      | processCreated pid => exact keeps_onProcessCreated pid
      | moduleLoaded module =>
          exact confined_onModuleLoaded bound_keeps module (keeps_moduleLoaded _)
            (keeps_breakAtEntry _)
      | moduleUnloaded module =>
          exact confined_onModuleUnloaded bound_keeps module (keeps_moduleUnloaded _)
      | breakpointHit thread hit => exact absurd rfl (noHit thread hit)
      | stepComplete thread reason => exact keeps_onStepComplete thread reason
      | _ => trivial
  | asked request =>
      cases request with
      | configurationDone => exact keeps_configurationDone
      | setBreakpoints file requests => exact absurd rfl (noSet file requests)
      | step kind thread => exact keeps_start thread kind
      | _ => trivial
  | _ => trivial

/-- A decision, and what carries it out. -/
def carryOut : Except EngineError Action → SessionJob Unit
  | .ok action => apply action
  | .error _ => apply .resume

theorem keeps_carryOut (decided : Except EngineError Action) :
    Confined possible Keeps (carryOut decided) := by
  cases decided with
  | ok action => exact confined_apply bound_keeps action
  | error e => exact confined_apply bound_keeps .resume

/-- A notification is decided about, and the decision is carried out. -/
theorem ensures_notified {event : NativeEvent} {s : SessionState}
    {P : Transcript → SessionState → Except EngineError Action → Prop}
    {Q : Transcript → SessionState → Prop}
    (decided : (decide event).run.Ensures (alone possible) s P)
    (carried : ∀ es s' r, P es s' r → (carryOut r).Ensures (alone possible) s'
      fun more s'' _ => Q (es ++ more) s'') :
    (Input.notified event).task.Ensures (alone possible) s fun es s' _ => Q es s' := by
  have handled : (handle event).Ensures (alone possible) s fun es s' _ => Q es s' := by
    refine decided.bind fun es s' r holds => ?_
    cases r with
    | ok action => exact carried es s' _ holds
    | error e => exact carried es s' _ holds
  exact Program.ensures_map_iff.mpr handled

namespace Turn

variable {t : Turn}

/-- The number that is up next, and those after it, have no other breakpoint. -/
def NumbersFree (t : Turn) : Prop :=
  match t.input with
  | .asked (.setBreakpoints file requests) =>
    t.before.breakpoints.NumbersFree file requests.length
  | _ => True

/-- How many breakpoints the front end asks for. -/
def requests (t : Turn) : Nat :=
  match t.input with
  | .asked (.setBreakpoints _ requests) => requests.length
  | _ => 0

theorem numbersFree_of_few {n : Nat} (numbered : t.before.breakpoints.Numbered n)
    (few : n + t.requests ≤ UInt32.size) : t.NumbersFree := by
  unfold NumbersFree
  unfold requests at few
  split
  · rename_i file requests sets
    rw [sets] at few
    exact numbered.free few
  · trivial

/-- The target hands out handles in the turn that are not in use, and none of them twice. -/
abbrev HandsOutNew (t : Turn) : Prop :=
  Session.HandsOutNew (evaluations t.transcript) t.before

theorem Happens.setsAnew (happens : t.Happens possible) {file : String}
    {requests : List BreakpointRequest}
    (sets : t.input = .asked (.setBreakpoints file requests)) (free : t.NumbersFree)
    (apart : Apart t.before) (new : t.HandsOutNew) :
    SetsAnew file requests t.transcript t.before t.after := by
  rw [NumbersFree, sets] at free
  refine happens.ensured_of (Q := fun es s' _ => Apart t.before →
    Session.HandsOutNew (evaluations es) t.before → SetsAnew file requests es t.before s') sets ?_
    apart new
  refine Work.ofJob_bind (setsAnew_setBreakpoints file requests t.before free) ?_
  intro es s' infos anew
  refine Program.ensures_done_iff.mpr ?_
  rw [List.append_nil]
  exact anew

theorem Happens.keeps (happens : t.Happens possible)
    (unknown : ∀ thread hit, t.input = .notified (.breakpointHit thread hit) →
      t.before.breakpoints.byHandle? hit = none)
    (noSet : ∀ file requests, t.input ≠ .asked (.setBreakpoints file requests)) :
    Keeps t.transcript t.before t.after := by
  by_cases isHit : ∃ thread hit, t.input = .notified (.breakpointHit thread hit)
  · obtain ⟨thread, hit, notified⟩ := isHit
    refine happens.ensured_of (Q := fun es s' _ => Keeps es t.before s') notified ?_
    refine ensures_notified (keeps_unknownHit thread (unknown thread hit notified)) ?_
    exact fun es s' decided kept =>
      (keeps_carryOut decided s').mono fun _ _ _ kept' => kept.append kept'
  · simp only [not_exists] at isHit
    exact happens.confined bound_keeps keeps_cancelStep (keeps_remains isHit noSet)

end Turn

end Session

end ManagedDebugger
