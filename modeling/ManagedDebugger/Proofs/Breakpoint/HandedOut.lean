import ManagedDebugger.Proofs.Breakpoint.Consistency
import ManagedDebugger.Proofs.Session.Task
import ManagedDebugger.Proofs.Step.Armed

/-!
# Handles that the target hands out

Breakpoints are set by the registry, by the step controller, and at the entry point. If no handle is
handed out that is in use, then each of them keeps its handles apart from those of the others. The
requests of the user and the counts of hits have nothing to do with any of this: they stay with a
breakpoint however often it gets another handle, or none.
-/

namespace ManagedDebugger

/-! ## Handles -/

/-- The handle of a breakpoint that was just set. -/
def Exchange.handedOut? : Exchange evalEffect → Option NativeBreakpointId
  | ⟨.native (.createBreakpoint _ _), .ok handle⟩ => some handle
  | _ => none

def handedOut (es : List (Exchange evalEffect)) : List NativeBreakpointId :=
  es.filterMap Exchange.handedOut?

@[simp]
theorem handedOut_nil : handedOut [] = [] := rfl

@[simp]
theorem handedOut_append (first second : List (Exchange evalEffect)) :
    handedOut (first ++ second) = handedOut first ++ handedOut second :=
  List.filterMap_append

theorem handedOut_cons (x : Exchange evalEffect) (rest : List (Exchange evalEffect)) :
    handedOut (x :: rest) = x.handedOut?.toList ++ handedOut rest := by
  rw [handedOut, List.filterMap_cons]
  cases x.handedOut? <;> rfl

theorem Exchange.handedOut?_of_harmless {x : Exchange evalEffect} (harmless : x.op.arms = false) :
    x.handedOut? = none := by
  unfold handedOut?
  split
  · cases harmless
  · rfl

theorem handedOut_marks (es : List (Exchange evalEffect)) :
    handedOut (marks es) = handedOut es := by
  induction es with
  | nil => rfl
  | cons x rest inductionHypothesis =>
      cases arms : x.op.arms with
      | true => rw [marks_arming arms, handedOut_cons, inductionHypothesis, handedOut_cons]
      | false =>
          rw [marks_harmless arms, inductionHypothesis, handedOut_cons,
            Exchange.handedOut?_of_harmless arms]
          rfl

theorem exists_heldAfter {held : List NativeBreakpointId} (x : Exchange nativeEffect)
    (unheld : ∀ handle ∈ (Exchange.ofNative x).handedOut?, handle ∉ held) :
    ∃ held', heldAfter held x = some held' ∧
      ∀ handle ∈ held', handle ∈ held ∨ handle ∈ (Exchange.ofNative x).handedOut? := by
  unfold heldAfter
  split
  · rename_i method offset handle
    refine ⟨handle :: held, if_neg (unheld handle rfl), fun other member => ?_⟩
    cases List.mem_cons.mp member with
    | inl own => exact .inr (own ▸ rfl)
    | inr old => exact .inl old
  · exact ⟨_, rfl, fun other member => .inl (List.mem_filter.mp member).1⟩
  · exact ⟨held, rfl, fun _ => .inl⟩

/-- A target that hands out new handles only lends them in the end. -/
theorem exists_lending {held : List NativeBreakpointId} {calls : List (Exchange nativeEffect)}
    (distinct : (handedOut (calls.map .ofNative)).Nodup)
    (unheld : ∀ handle ∈ handedOut (calls.map .ofNative), handle ∉ held) :
    ∃ held', Lending.Allows held calls held' ∧
      ∀ handle ∈ held', handle ∈ held ∨ handle ∈ handedOut (calls.map .ofNative) := by
  induction calls generalizing held with
  | nil => exact ⟨held, Environment.allows_nil_iff.mpr rfl, fun _ => .inl⟩
  | cons x rest inductionHypothesis =>
      rw [List.map_cons, handedOut_cons] at distinct unheld ⊢
      obtain ⟨-, others, apart⟩ := List.nodup_append.mp distinct
      obtain ⟨own, later⟩ := List.forall_mem_append.mp unheld
      obtain ⟨held₁, first, among⟩ := exists_heldAfter x fun handle handed =>
        own handle (Option.mem_toList.mpr handed)
      have free : ∀ handle ∈ handedOut (rest.map .ofNative), handle ∉ held₁ := by
        intro handle member taken
        cases among handle taken with
        | inl old => exact later handle member old
        | inr handed => exact apart handle (Option.mem_toList.mpr handed) handle member rfl
      obtain ⟨held', following, among'⟩ := inductionHypothesis others free
      refine ⟨held', Environment.allows_cons_iff.mpr ⟨held₁, first, following⟩, ?_⟩
      intro handle member
      rw [List.mem_append, Option.mem_toList]
      cases among' handle member with
      | inl taken => exact (among handle taken).imp_right .inl
      | inr handed => exact .inr (.inr handed)

namespace BreakpointRegistry

theorem Addressed.mem_handles_iff {r : BreakpointRegistry} {handle : NativeBreakpointId}
    (addressed : r.Addressed) : handle ∈ r.handles ↔ ∃ id, r.Holds handle id := by
  constructor
  · intro member
    obtain ⟨b, among, held⟩ := List.mem_filterMap.mp member
    exact ⟨b.id, b, addressed.mem_values_iff.mp among, held⟩
  · rintro ⟨id, holds⟩
    exact addressed.mem_handles holds

end BreakpointRegistry

/-- After a use of the breakpoints, each handle that they hold is an old one or was just handed
out. -/
theorem BreakpointUse.Happens.handles {u : BreakpointUse} (happens : u.Happens)
    (indexed : u.before.Indexed) (filed : u.before.Filed) (free : u.NumbersFree)
    (distinct : (handedOut (u.exchanges.map .ofNative)).Nodup)
    (unheld : ∀ handle ∈ handedOut (u.exchanges.map .ofNative), handle ∉ u.before.handles) :
    u.after.Indexed ∧ ∀ handle ∈ u.after.handles,
      handle ∈ u.before.handles ∨ handle ∈ handedOut (u.exchanges.map .ofNative) := by
  obtain ⟨held, allowed, among⟩ := exists_lending distinct unheld
  have accounted := happens.accounted allowed indexed filed free
  refine ⟨accounted.indexed, fun handle member => ?_⟩
  obtain ⟨id, holds⟩ := accounted.indexed.toAddressed.mem_handles_iff.mp member
  exact among handle (accounted.covered handle id holds)

namespace Step

open Exchange

variable {possible : Exchange evalEffect → Prop} {thread : ThreadId} {st st' : StepState}
  {ms : List (Exchange evalEffect)} {ok : Bool} {b : NativeBreakpointId}

theorem Starts.breakpoint (starts : Starts thread ms ok st') (waits : st'.breakpoint? = some b) :
    b ∈ handedOut ms := by
  cases starts with
  | unread => cases waits
  | plain kind asks => cases asks <;> cases waits
  | notCreated method offset e => cases waits
  | created kind method offset resumeOffset own asks =>
      cases asks with
      | accepted mode =>
          cases waits
          simp [handedOut_cons, handedOut?]
      | refused mode e => cases waits

theorem Hits.breakpoint (hits : Hits thread st ms ok st') (waits : st'.breakpoint? = some b) :
    st.breakpoint? = some b ∨ b ∈ handedOut ms := by
  cases hits with
  | unchanged st known => exact .inl waits
  | notCalledOff kind method own resumeOffset e => exact .inl waits
  | notCreated kind method own resumeOffset reply e => exact .inl waits
  | yielded kind method own resume resumeOffset reply identity =>
      cases waits
      exact .inr (by simp [handedOut_cons, handedOut?])
  | resumed origin kind own identity reply read => cases waits
  | onward origin kind own identity reply asks => cases asks <;> cases waits

/-- The breakpoint of a step in flight is an old one, or was just handed out. -/
theorem Exits.breakpoint {command : StepCommand} (exits : Exits possible command st ms ok st')
    (waits : st'.breakpoint? = some b) : st.breakpoint? = some b ∨ b ∈ handedOut ms := by
  cases command with
  | start thread kind =>
      rw [Exits] at exits
      split at exits
      · exact .inr (Starts.breakpoint exits waits)
      · obtain ⟨-, -, rfl⟩ := exits
        exact .inl waits
  | complete thread reason =>
      cases exits with
      | notOwn other => exact .inl waits
      | unread fallible lands => cases waits
      | onward lands asks => cases waits
      | ended lands => cases waits
  | hit thread breakpoint => exact Hits.breakpoint exits waits
  | cancel =>
      obtain ⟨-, -, rfl⟩ := exits
      cases waits

end Step

/-! ## What the user asked for -/

/-- A breakpoint apart from what became of it in the target. -/
def Breakpoint.unbound (b : Breakpoint) : Breakpoint := { b with binding := .pending }

namespace BreakpointRegistry

/-- What the user asked for under an id, and how often it was hit. -/
def requested? (r : BreakpointRegistry) (id : UInt32) : Option Breakpoint :=
  (r.get? id).map Breakpoint.unbound

variable {r r' : BreakpointRegistry} {id : UInt32} {symbols : SymbolTable}
  {modules : List ModuleId} {es : List (Exchange nativeEffect)}

theorem fileOf?_eq : r.fileOf? id = (r.requested? id).map (·.file) := by
  rw [fileOf?, requested?, Option.map_map]
  rfl

theorem Tries.requested? {found : Bool × BreakpointRegistry} (named : r.Named)
    (tries : Tries symbols modules r id es found) (other : UInt32) :
    found.2.requested? other = r.requested? other := by
  cases tries with
  | unplaced nowhere => rfl
  | @asked b place here placed reply =>
      obtain rfl := named id b here
      rw [BreakpointRegistry.requested?, get?_rebind]
      split
      · rename_i own
        subst own
        rw [BreakpointRegistry.requested?, here]
        rfl
      · rfl

theorem requested?_of_bindAll {report : Bool → Bool} {ids : List UInt32}
    {found : List BreakpointInfo × BreakpointRegistry} (addressed : r.Addressed)
    (played : (r.bindAll symbols modules report ids).Plays es found) (other : UInt32) :
    found.2.requested? other = r.requested? other := by
  induction ids generalizing r es found with
  | nil =>
      obtain ⟨-, rfl⟩ := Program.plays_done_iff.mp played
      rfl
  | cons id rest inductionHypothesis =>
      obtain ⟨first, tried, second, told, tries, others, -, same⟩ := plays_bindAll_cons played
      rw [same, inductionHypothesis (tries.binds addressed).addressed others]
      exact tries.requested? addressed.named other

theorem Unloads.requested? {module : ModuleId} (unloads : r.Unloads module r') (other : UInt32) :
    r'.requested? other = r.requested? other := by
  rw [BreakpointRegistry.requested?, unloads.get?, BreakpointRegistry.requested?, Option.map_map]
  refine congrArg (Option.map · (r.get? other)) (funext fun b => ?_)
  simp only [Function.comp_apply]
  split <;> rfl

/-- After the breakpoints of a file were set, a breakpoint is a new one of the file, or one of
another file as it was before. -/
theorem requested?_of_setBreakpoints {file : String} {requests : List BreakpointRequest}
    {found : List BreakpointInfo × BreakpointRegistry} {b : Breakpoint} (addressed : r.Addressed)
    (filed : r.Filed) (played : (r.setBreakpoints symbols modules file requests).Plays es found)
    (requested : found.2.requested? id = some b) :
    b.file = file ∧ b.hits = 0 ∨ b.file ≠ file ∧ r.requested? id = some b := by
  obtain ⟨first, made, second, -, refills, bound⟩ := refills_of_plays addressed played
  rw [requested?_of_bindAll refills.addressed bound] at requested
  by_cases new : id ∈ numbersAfter r.lastId requests.length
  · obtain ⟨request, -, here⟩ := refills.added id new
    rw [BreakpointRegistry.requested?, here] at requested
    cases requested
    exact .inl ⟨rfl, rfl⟩
  · rw [BreakpointRegistry.requested?, refills.kept id new] at requested
    by_cases old : id ∈ r.idsOf file
    · rw [if_pos old] at requested
      cases requested
    · rw [if_neg old] at requested
      refine .inr ⟨fun own => old ?_, requested⟩
      obtain ⟨c, here, rfl⟩ := Option.map_eq_some_iff.mp requested
      exact (filed.listed file id).mpr (fileOf?_eq_some_iff.mpr ⟨c, here, own⟩)

end BreakpointRegistry

end ManagedDebugger
