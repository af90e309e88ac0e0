import Mathlib.Data.List.Forall2
import ManagedDebugger.Proofs.Breakpoint.Consistency

/-!
# Breakpoints in a target that refuses none

If the target grants every breakpoint that it is asked for, then each one that is tried is bound at
the place that was found for it, and stays as it is only if there is none. So what becomes of the
breakpoints of a file is settled by the places that are found for them when they are set, and when
another module is loaded.
-/

namespace ManagedDebugger

/-- A breakpoint that is asked for is granted. -/
def Exchange.Granted : Exchange nativeEffect → Prop
  | ⟨.createBreakpoint _ _, reply⟩ => ∃ handle, reply = .ok handle
  | _ => True

/-- What a breakpoint is bound to if this place, or none, was found for it. -/
def Binding.Settles (found : Option ResolvedBreakpoint) : Binding → Prop
  | pending => found = none
  | bound place _ => found = some place
  | failed _ => False

theorem Binding.Settles.eq_pending_iff {found : Option ResolvedBreakpoint} {binding : Binding}
    (settles : binding.Settles found) : binding = .pending ↔ found = none := by
  cases binding with
  | pending => simpa [Settles] using settles
  | bound place handle =>
      obtain rfl : found = some place := settles
      exact ⟨nofun, nofun⟩
  | failed message => cases settles

theorem Binding.Settles.isBound_iff {found : Option ResolvedBreakpoint} {binding : Binding}
    (settles : binding.Settles found) : binding.isBound = true ↔ found ≠ none := by
  cases binding with
  | pending => simpa [isBound, Settles] using settles
  | bound place handle =>
      obtain rfl : found = some place := settles
      simp [isBound]
  | failed message => cases settles

namespace BreakpointRegistry

variable {symbols : SymbolTable} {modules : List ModuleId} {r r' : BreakpointRegistry}
  {es : List (Exchange nativeEffect)} {id : UInt32} {b : Breakpoint}

/-- The breakpoint is as it was but for its binding, which is settled by these places. -/
def SettledAs (r : BreakpointRegistry) (id : UInt32) (b : Breakpoint)
    (found : Option ResolvedBreakpoint) : Prop :=
  ∃ binding : Binding, r.get? id = some { b with binding } ∧ binding.Settles found

theorem Tries.granted {found : Bool × BreakpointRegistry}
    (tries : Tries symbols modules r id es found) (addressed : r.Addressed)
    (granted : ∀ x ∈ es, x.Granted) (here : r.get? id = some b) (pending : b.binding = .pending) :
    found.2.SettledAs id b (symbols.place? modules b.file b.line) := by
  cases tries with
  | unplaced nowhere =>
      refine ⟨.pending, ?_, nowhere b here⟩
      rw [← pending]
      exact here
  | @asked c place there placed reply =>
      cases here.symm.trans there
      obtain rfl := addressed.named id b here
      obtain ⟨handle, rfl⟩ : ∃ handle, reply = .ok handle := granted _ List.mem_cons_self
      exact ⟨.bound place handle, (get?_rebind r b _ _).trans (if_pos rfl), placed⟩

theorem Tries.get?_other {tried : UInt32} {found : Bool × BreakpointRegistry}
    (tries : Tries symbols modules r tried es found) (addressed : r.Addressed)
    (other : id ≠ tried) : found.2.get? id = r.get? id := by
  cases tries with
  | unplaced nowhere => rfl
  | @asked b place here placed reply =>
      obtain rfl := addressed.named tried b here
      exact (get?_rebind r b _ _).trans (if_neg (Ne.symm other))

theorem get?_bindAll {report : Bool → Bool} {ids : List UInt32}
    {found : List BreakpointInfo × BreakpointRegistry} (addressed : r.Addressed)
    (played : (r.bindAll symbols modules report ids).Plays es found) (other : id ∉ ids) :
    found.2.get? id = r.get? id := by
  induction ids generalizing r es found with
  | nil =>
      obtain ⟨-, rfl⟩ := Program.plays_done_iff.mp played
      rfl
  | cons tried rest inductionHypothesis =>
      obtain ⟨first, after, second, told, tries, played, -, same⟩ := plays_bindAll_cons played
      obtain ⟨different, absent⟩ := not_or.mp (mt List.mem_cons.mpr other)
      rw [same, inductionHypothesis (tries.binds addressed).addressed played absent]
      exact tries.get?_other addressed different

/-- Each of the pending breakpoints that are tried gets the place that is found for it. -/
theorem granted_bindAll {report : Bool → Bool} {ids : List UInt32}
    {found : List BreakpointInfo × BreakpointRegistry} (addressed : r.Addressed)
    (distinct : ids.Nodup) (granted : ∀ x ∈ es, x.Granted)
    (played : (r.bindAll symbols modules report ids).Plays es found) (among : id ∈ ids)
    (here : r.get? id = some b) (pending : b.binding = .pending) :
    found.2.SettledAs id b (symbols.place? modules b.file b.line) := by
  induction ids generalizing r es found with
  | nil => cases among
  | cons tried rest inductionHypothesis =>
      obtain ⟨first, after, second, told, tries, rebound, rfl, same⟩ := plays_bindAll_cons played
      obtain ⟨fresh, distinct⟩ := List.nodup_cons.mp distinct
      obtain ⟨granted, later⟩ := List.forall_mem_append.mp granted
      have addressed' := (tries.binds addressed).addressed
      rw [same]
      rcases List.mem_cons.mp among with rfl | among
      · obtain ⟨binding, now, settles⟩ := tries.granted addressed granted here pending
        exact ⟨binding, (get?_bindAll addressed' rebound fresh).trans now, settles⟩
      · have other : id ≠ tried := fun own => fresh (own ▸ among)
        refine inductionHypothesis addressed' distinct later rebound among ?_
        exact (tries.get?_other addressed other).trans here

/-- The breakpoints of a file, after they were set anew in some modules. -/
theorem granted_setBreakpoints {file : String} {requests : List BreakpointRequest}
    {found : List BreakpointInfo × BreakpointRegistry} (addressed : r.Addressed)
    (few : requests.length ≤ UInt32.size) (granted : ∀ x ∈ es, x.Granted)
    (played : (r.setBreakpoints symbols modules file requests).Plays es found) :
    List.Forall₂ (fun id request => found.2.SettledAs id (.ofRequest id file request)
      (symbols.place? modules file request.line)) (found.2.idsOf file) requests := by
  have ids := (sets_of_plays addressed played).ids file
  obtain ⟨first, made, second, rfl, refills, bound⟩ := refills_of_plays addressed played
  obtain ⟨-, granted⟩ := List.forall_mem_append.mp granted
  have distinct : (numbersAfter r.lastId requests.length).Nodup := by
    rw [← UInt32.ofNat_toNat (x := r.lastId)]
    exact nodup_numbersAfter few
  rw [ids, if_pos rfl]
  have added := refills.inOrder distinct
  refine ((List.forall₂_and_left _ _).mpr ⟨fun _ => id, added⟩).imp fun id request holds => ?_
  exact granted_bindAll refills.addressed distinct granted bound holds.1 holds.2 rfl

/-- A breakpoint that is settled by the places found so far is tried once more in a module that was
just loaded, unless there was one. -/
theorem granted_moduleLoaded {module : ModuleId} {place : Option ResolvedBreakpoint}
    {found : List BreakpointInfo × BreakpointRegistry} (addressed : r.Addressed)
    (granted : ∀ x ∈ es, x.Granted) (played : (r.moduleLoaded symbols module).Plays es found)
    (settled : r.SettledAs id b place) :
    found.2.SettledAs id b (place.or (symbols.resolve? module b.file b.line)) := by
  obtain ⟨binding, here, settles⟩ := settled
  have single : symbols.place? [module] b.file b.line = symbols.resolve? module b.file b.line := by
    simp [SymbolTable.place?]
  cases binding with
  | pending =>
      obtain rfl : place = none := settles
      have among : id ∈ r.pendingIds := (mem_pendingIds_iff addressed).mpr ⟨_, here, rfl⟩
      obtain ⟨binding, now, settles⟩ :=
        granted_bindAll addressed (nodup_pendingIds addressed) granted played among here rfl
      exact ⟨binding, now, by rwa [Option.none_or, ← single]⟩
  | bound place' handle =>
      obtain rfl : place = some place' := settles
      have other : id ∉ r.pendingIds := by
        rw [mem_pendingIds_iff addressed]
        rintro ⟨c, there, pending⟩
        cases here.symm.trans there
        cases pending
      exact ⟨.bound place' handle, (get?_bindAll addressed played other).trans here, rfl⟩
  | failed message => cases settles

end BreakpointRegistry

end ManagedDebugger
