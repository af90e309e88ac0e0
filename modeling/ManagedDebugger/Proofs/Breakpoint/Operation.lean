import Mathlib.Data.List.Forall2
import ManagedDebugger.Proofs.Breakpoint.Picture

/-!
# What the operations on breakpoints do

One inversion lemma for each operation of the registry says everything that it can do: which
breakpoints it takes out, puts in or binds anew, and what it asks of the target for that. Later
modules argue from these lemmas and never open the operations. At the end stand the uses of a
registry, one after the other, each with the modules and the symbols of its own time.
-/

namespace ManagedDebugger

/-- The place that the first of some modules has for a line. -/
def SymbolTable.place? (symbols : SymbolTable) (modules : List ModuleId) (file : String)
    (line : UInt32) : Option ResolvedBreakpoint :=
  modules.findSome? fun m => symbols.resolve? m file line

theorem SymbolTable.place?_eq_none_iff {symbols : SymbolTable} {modules : List ModuleId}
    {file : String} {line : UInt32} : symbols.place? modules file line = none ↔
      ∀ m ∈ modules, symbols.resolve? m file line = none :=
  List.findSome?_eq_none_iff

/-- What the target's reply makes of a breakpoint that has a place. -/
def Binding.ofReply (place : ResolvedBreakpoint) : Except NativeError NativeBreakpointId → Binding
  | .ok handle => .bound place handle
  | .error e => .failed ("Could not set breakpoint: " ++ e.message)

theorem Binding.ofReply_ne_pending (place : ResolvedBreakpoint)
    (reply : Except NativeError NativeBreakpointId) : ofReply place reply ≠ .pending := by
  cases reply <;> exact nofun

theorem Binding.isPending_iff {binding : Binding} :
    binding.isPending = true ↔ binding = .pending := by
  cases binding <;> simp [isPending]

namespace BreakpointRegistry

/-- The ids that are listed for a file. -/
def idsOf (r : BreakpointRegistry) (file : String) : List UInt32 := (r.byFile.get? file).getD []

/-- The file of a breakpoint. -/
def fileOf? (r : BreakpointRegistry) (id : UInt32) : Option String := (r.get? id).map (·.file)

theorem fileOf?_eq_some_iff {r : BreakpointRegistry} {id : UInt32} {file : String} :
    r.fileOf? id = some file ↔ ∃ b, r.get? id = some b ∧ b.file = file :=
  Option.map_eq_some_iff

/-- The breakpoints are a map from their ids. -/
structure Addressed (r : BreakpointRegistry) : Prop where
  distinct : r.breakpoints.Distinct
  named : r.Named

namespace Addressed

variable {r r' : BreakpointRegistry}

theorem empty : Addressed .empty := ⟨Keyed.distinct_nil, named_empty⟩

theorem put (addressed : r.Addressed) {b : Breakpoint}
    (changed : r'.breakpoints = r.breakpoints.put b.id b) : r'.Addressed :=
  ⟨changed ▸ addressed.distinct.put b.id b, addressed.named.put changed⟩

theorem erase (addressed : r.Addressed) {id : UInt32}
    (changed : r'.breakpoints = r.breakpoints.erase id) : r'.Addressed := by
  refine ⟨changed ▸ addressed.distinct.erase id, fun other b here => ?_⟩
  rw [get?, changed, Keyed.get?_erase] at here
  exact addressed.named other b (Option.ite_none_left_eq_some.mp here).2

theorem mem_values_iff (addressed : r.Addressed) {b : Breakpoint} :
    b ∈ r.breakpoints.values ↔ r.get? b.id = some b := by
  constructor
  · intro member
    obtain ⟨⟨id, _⟩, entry, rfl⟩ := List.mem_map.mp member
    have here : r.get? id = some _ := addressed.distinct.mem_iff.mp entry
    obtain rfl := addressed.named id _ here
    exact here
  · intro here
    exact List.mem_map.mpr ⟨(b.id, b), addressed.distinct.mem_iff.mpr here, rfl⟩

theorem nodup_ids (addressed : r.Addressed) : (r.breakpoints.values.map (·.id)).Nodup := by
  have own : ∀ e ∈ r.breakpoints, e.2.id = e.1 := fun e entry =>
    addressed.named e.1 e.2 (addressed.distinct.mem_iff.mp entry)
  have same : r.breakpoints.values.map (·.id) = r.breakpoints.keys := by
    rw [Keyed.values, List.map_map]
    exact List.map_congr_left own
  rw [same]
  exact addressed.distinct

end Addressed

/-! ## Single changes -/

section Change

variable (r : BreakpointRegistry) (b : Breakpoint)

theorem get?_rebind (binding : Binding) (id : UInt32) :
    (r.rebind b binding).get? id = if b.id = id then some { b with binding } else r.get? id :=
  Keyed.get?_put _ _ _ _

theorem byHandle_rebind (binding : Binding) (handle : NativeBreakpointId) :
    (r.rebind b binding).byHandle.get? handle =
      if binding.handle? = some handle then some b.id else r.byHandle.get? handle := by
  unfold rebind
  cases held : binding.handle? with
  | none => simp
  | some own =>
      simp only [Keyed.get?_put, Option.some.injEq]

theorem byHandle_dropHandle (handle : NativeBreakpointId) :
    (r.dropHandle b).byHandle.get? handle =
      if b.binding.handle? = some handle then none else r.byHandle.get? handle := by
  unfold dropHandle
  cases held : b.binding.handle? with
  | none => simp
  | some own => simp only [Keyed.get?_erase, Option.some.injEq]

@[simp]
theorem breakpoints_dropHandle : (r.dropHandle b).breakpoints = r.breakpoints := by
  unfold dropHandle
  split <;> rfl

@[simp]
theorem byFile_dropHandle : (r.dropHandle b).byFile = r.byFile := by
  unfold dropHandle
  split <;> rfl

@[simp]
theorem lastId_dropHandle : (r.dropHandle b).lastId = r.lastId := by
  unfold dropHandle
  split <;> rfl

@[simp]
theorem get?_dropHandle (id : UInt32) : (r.dropHandle b).get? id = r.get? id := by
  simp [get?]

theorem dropHandle_of_none {r : BreakpointRegistry} {b : Breakpoint}
    (unheld : b.binding.handle? = none) : r.dropHandle b = r := by
  simp [dropHandle, unheld]

theorem get?_remove (id : UInt32) :
    (r.remove b).get? id = if b.id = id then none else r.get? id := by
  simp [remove, get?, Keyed.get?_erase]

theorem byHandle_remove (handle : NativeBreakpointId) :
    (r.remove b).byHandle.get? handle =
      if b.binding.handle? = some handle then none else r.byHandle.get? handle :=
  r.byHandle_dropHandle b handle

end Change

/-! ## Binding -/

/-- A try to bind a breakpoint, the calls it made, and what came of it. -/
inductive Tries (symbols : SymbolTable) (modules : List ModuleId) (r : BreakpointRegistry)
    (id : UInt32) : List (Exchange nativeEffect) → Bool × BreakpointRegistry → Prop where
  | unplaced (nowhere : ∀ b, r.get? id = some b → symbols.place? modules b.file b.line = none) :
      Tries symbols modules r id [] (false, r)
  | asked {b : Breakpoint} {place : ResolvedBreakpoint} (here : r.get? id = some b)
      (placed : symbols.place? modules b.file b.line = some place)
      (reply : Except NativeError NativeBreakpointId) :
      Tries symbols modules r id [⟨.createBreakpoint place.method place.offset, reply⟩]
        (true, r.rebind b (.ofReply place reply))

variable {symbols : SymbolTable} {modules : List ModuleId} {r r' : BreakpointRegistry}
  {es : List (Exchange nativeEffect)}

theorem tries_of_plays {id : UInt32} {found : Bool × BreakpointRegistry}
    (played : (r.tryBind symbols modules id).Plays es found) :
    Tries symbols modules r id es found := by
  unfold tryBind at played
  split at played
  · rename_i absent
    obtain ⟨rfl, rfl⟩ := Program.plays_done_iff.mp played
    exact .unplaced fun b here => by rw [absent] at here; cases here
  · rename_i b here
    split at played
    · rename_i nowhere
      obtain ⟨rfl, rfl⟩ := Program.plays_done_iff.mp played
      refine .unplaced fun other there => ?_
      cases here.symm.trans there
      exact nowhere
    · rename_i place placed
      obtain ⟨first, reply, second, asked, ended, rfl⟩ := Program.plays_bind_iff.mp played
      obtain ⟨reply', rest, rfl, answered⟩ := Program.plays_perform_iff.mp asked
      obtain ⟨rfl, rfl⟩ := Program.plays_done_iff.mp answered
      cases reply with
      | ok handle =>
          obtain ⟨rfl, rfl⟩ := Program.plays_done_iff.mp ended
          exact .asked here placed (.ok handle)
      | error e =>
          obtain ⟨rfl, rfl⟩ := Program.plays_done_iff.mp ended
          exact .asked here placed (.error e)

theorem plays_bindAll_cons {report : Bool → Bool} {id : UInt32} {rest : List UInt32}
    {found : List BreakpointInfo × BreakpointRegistry}
    (played : (r.bindAll symbols modules report (id :: rest)).Plays es found) :
    ∃ first tried second told, Tries symbols modules r id first tried ∧
      (tried.2.bindAll symbols modules report rest).Plays second told ∧
      es = first ++ second ∧ found.2 = told.2 := by
  obtain ⟨first, tried, following, own, continued, rfl⟩ := Program.plays_bind_iff.mp played
  obtain ⟨second, told, last, others, ended, rfl⟩ := Program.plays_bind_iff.mp continued
  obtain ⟨rfl, rfl⟩ := Program.plays_done_iff.mp ended
  exact ⟨first, tried, second, told, tries_of_plays own, others, by rw [List.append_nil], rfl⟩

/-- What trying to bind some breakpoints changes. -/
structure Binds (symbols : SymbolTable) (modules : List ModuleId) (r : BreakpointRegistry)
    (ids : List UInt32) (r' : BreakpointRegistry) : Prop where
  lastId : r'.lastId = r.lastId
  byFile : r'.byFile = r.byFile
  addressed : r'.Addressed
  files : ∀ id, r'.fileOf? id = r.fileOf? id
  /-- One that is pending was so before, and no module has a place for it if it was tried. -/
  unplaced : ∀ id b, r'.get? id = some b → b.binding = .pending → r.get? id = some b ∧
    (id ∈ ids → symbols.place? modules b.file b.line = none)

theorem Tries.binds {id : UInt32} {found : Bool × BreakpointRegistry}
    (tries : Tries symbols modules r id es found) (addressed : r.Addressed) :
    Binds symbols modules r [id] found.2 := by
  cases tries with
  | unplaced nowhere =>
      refine ⟨rfl, rfl, addressed, fun _ => rfl, fun other b here _ => ⟨here, fun member => ?_⟩⟩
      rw [List.mem_singleton.mp member] at here
      exact nowhere b here
  | @asked b place here placed reply =>
      obtain rfl := addressed.named id b here
      have rebound : (r.rebind b (.ofReply place reply)).Addressed :=
        addressed.put (b := { b with binding := .ofReply place reply }) rfl
      refine ⟨rfl, rfl, rebound, fun other => ?_, fun other c there pending => ?_⟩
      · rw [fileOf?, get?_rebind]
        split
        · rename_i same
          rw [← same, fileOf?, here]
          rfl
        · rfl
      · rw [get?_rebind] at there
        split at there
        · cases there
          exact absurd pending (Binding.ofReply_ne_pending place reply)
        · rename_i different
          exact ⟨there, fun member => absurd (List.mem_singleton.mp member).symm different⟩

theorem Binds.cons {r'' : BreakpointRegistry} {id : UInt32} {rest : List UInt32}
    (first : Binds symbols modules r [id] r') (second : Binds symbols modules r' rest r'') :
    Binds symbols modules r (id :: rest) r'' where
  lastId := second.lastId.trans first.lastId
  byFile := second.byFile.trans first.byFile
  addressed := second.addressed
  files := fun other => (second.files other).trans (first.files other)
  unplaced := by
    intro other b here pending
    obtain ⟨there, restNowhere⟩ := second.unplaced other b here pending
    obtain ⟨before, nowhere⟩ := first.unplaced other b there pending
    refine ⟨before, fun member => ?_⟩
    cases List.mem_cons.mp member with
    | inl own => exact nowhere (List.mem_singleton.mpr own)
    | inr among => exact restNowhere among

theorem binds_of_plays {report : Bool → Bool} {ids : List UInt32}
    {found : List BreakpointInfo × BreakpointRegistry} (addressed : r.Addressed)
    (played : (r.bindAll symbols modules report ids).Plays es found) :
    Binds symbols modules r ids found.2 := by
  induction ids generalizing r es found with
  | nil =>
      obtain ⟨-, rfl⟩ := Program.plays_done_iff.mp played
      exact ⟨rfl, rfl, addressed, fun _ => rfl, fun _ _ here _ => ⟨here, nofun⟩⟩
  | cons id rest inductionHypothesis =>
      obtain ⟨first, tried, second, told, tries, played, -, same⟩ := plays_bindAll_cons played
      have one := tries.binds addressed
      rw [same]
      exact one.cons (inductionHypothesis one.addressed played)

/-! ## Taking breakpoints out and putting them in -/

/-- What taking some breakpoints out changes. -/
structure Removes (r : BreakpointRegistry) (ids : List UInt32) (r' : BreakpointRegistry) :
    Prop where
  lastId : r'.lastId = r.lastId
  byFile : r'.byFile = r.byFile
  addressed : r'.Addressed
  get? : ∀ id, r'.get? id = if id ∈ ids then none else r.get? id

theorem plays_removeAll_cons {id : UInt32} {rest : List UInt32}
    (played : (r.removeAll (id :: rest)).Plays es r') :
    (r.get? id = none ∧ (r.removeAll rest).Plays es r') ∨
    ∃ b, r.get? id = some b ∧
      ((b.binding.handle? = none ∧ ((r.remove b).removeAll rest).Plays es r') ∨
      ∃ handle reply second, b.binding.handle? = some handle ∧
        es = ⟨.setBreakpointActive handle false, reply⟩ :: second ∧
        ((r.remove b).removeAll rest).Plays second r') := by
  unfold removeAll at played
  split at played
  · rename_i absent
    exact .inl ⟨absent, played⟩
  · rename_i b here
    refine .inr ⟨b, here, ?_⟩
    dsimp only at played
    split at played
    · rename_i handle held
      obtain ⟨first, reply, second, asked, following, rfl⟩ := Program.plays_bind_iff.mp played
      obtain ⟨reply', others, rfl, answered⟩ := Program.plays_perform_iff.mp asked
      obtain ⟨rfl, rfl⟩ := Program.plays_done_iff.mp answered
      exact .inr ⟨handle, reply, second, held, rfl, following⟩
    · rename_i unheld
      exact .inl ⟨unheld, played⟩

theorem Removes.cons {id : UInt32} {b : Breakpoint} {rest : List UInt32} (addressed : r.Addressed)
    (here : r.get? id = some b) (others : Removes (r.remove b) rest r') :
    Removes r (id :: rest) r' := by
  obtain rfl := addressed.named id b here
  refine ⟨?_, ?_, others.addressed, fun other => ?_⟩
  · simpa [remove] using others.lastId
  · simpa [remove] using others.byFile
  · rw [others.get?, get?_remove]
    by_cases own : other = b.id
    · simp [own]
    · simp [own, Ne.symm own]

theorem Addressed.remove (addressed : r.Addressed) (b : Breakpoint) : (r.remove b).Addressed := by
  have changed : (r.remove b).breakpoints = r.breakpoints.erase b.id := by
    simp [BreakpointRegistry.remove]
  exact addressed.erase changed

theorem removes_of_plays {ids : List UInt32} (addressed : r.Addressed)
    (played : (r.removeAll ids).Plays es r') : Removes r ids r' := by
  induction ids generalizing r es with
  | nil =>
      obtain ⟨-, rfl⟩ := Program.plays_done_iff.mp played
      exact ⟨rfl, rfl, addressed, fun id => (if_neg List.not_mem_nil).symm⟩
  | cons id rest inductionHypothesis =>
      rcases plays_removeAll_cons played with ⟨absent, played⟩ |
        ⟨b, here, ⟨-, played⟩ | ⟨-, -, second, -, -, played⟩⟩
      · obtain ⟨lastId, byFile, after, found⟩ := inductionHypothesis addressed played
        refine ⟨lastId, byFile, after, fun other => ?_⟩
        rw [found]
        by_cases own : other = id
        · simp [own, absent]
        · simp [own]
      · exact .cons addressed here (inductionHypothesis (addressed.remove b) played)
      · exact .cons addressed here (inductionHypothesis (addressed.remove b) played)

/-- The numbers that are handed out after a number. -/
def numbersAfter (last : UInt32) : Nat → List UInt32
  | 0 => []
  | n + 1 => (last + 1) :: numbersAfter (last + 1) n

theorem addAll_ids (r : BreakpointRegistry) (file : String) (requests : List BreakpointRequest) :
    (r.addAll file requests).1 = numbersAfter r.lastId requests.length := by
  induction requests generalizing r with
  | nil => rfl
  | cons request rest inductionHypothesis =>
      exact congrArg (List.cons (r.lastId + 1)) (inductionHypothesis (r.add file request).2)

/-- What putting breakpoints in for some requests changes. -/
structure Adds (r : BreakpointRegistry) (file : String) (requests : List BreakpointRequest)
    (r' : BreakpointRegistry) : Prop where
  lastId : r'.lastId = r.lastId + UInt32.ofNat requests.length
  byFile : r'.byFile = r.byFile
  byHandle : r'.byHandle = r.byHandle
  addressed : r'.Addressed
  added : ∀ id ∈ numbersAfter r.lastId requests.length, ∃ request ∈ requests,
    r'.get? id = some (.ofRequest id file request)
  kept : ∀ id, id ∉ numbersAfter r.lastId requests.length → r'.get? id = r.get? id

theorem adds_addAll (addressed : r.Addressed) (file : String)
    (requests : List BreakpointRequest) : Adds r file requests (r.addAll file requests).2 := by
  induction requests generalizing r with
  | nil => exact ⟨(UInt32.add_zero r.lastId).symm, rfl, rfl, addressed, nofun, fun _ _ => rfl⟩
  | cons request rest inductionHypothesis =>
      let id := r.lastId + 1
      let r₁ := (r.add file request).2
      have addressed₁ : r₁.Addressed := addressed.put (b := .ofRequest id file request) rfl
      have found (other : UInt32) : r₁.get? other =
          if id = other then some (.ofRequest id file request) else r.get? other :=
        Keyed.get?_put _ _ _ _
      obtain ⟨lastId, byFile, byHandle, after, added, kept⟩ := inductionHypothesis addressed₁
      refine ⟨?_, byFile, byHandle, after, fun other member => ?_, fun other absent => ?_⟩
      · refine lastId.trans ?_
        rw [List.length_cons, UInt32.ofNat_add, UInt32.add_comm (.ofNat _)]
        exact UInt32.add_assoc _ _ _
      · by_cases again : other ∈ numbersAfter r₁.lastId rest.length
        · obtain ⟨request', among, here⟩ := added other again
          exact ⟨request', List.mem_cons_of_mem _ among, here⟩
        · have own : other = id := (List.mem_cons.mp member).resolve_right again
          refine ⟨request, List.mem_cons_self, (kept other again).trans ?_⟩
          rw [found, own, if_pos rfl]
      · obtain ⟨different, absent⟩ := not_or.mp (mt List.mem_cons.mpr absent)
        refine (kept other absent).trans ?_
        rw [found, if_neg (Ne.symm different)]

/-- Each request gets the next number. -/
theorem forall₂_added (file : String) (requests : List BreakpointRequest)
    (distinct : (numbersAfter r.lastId requests.length).Nodup) (addressed : r.Addressed) :
    List.Forall₂ (fun id request => (r.addAll file requests).2.get? id =
        some (.ofRequest id file request)) (numbersAfter r.lastId requests.length) requests := by
  induction requests generalizing r with
  | nil => exact .nil
  | cons request rest inductionHypothesis =>
      obtain ⟨fresh, distinct⟩ := List.nodup_cons.mp distinct
      have one : (r.add file request).2.Addressed :=
        addressed.put (b := .ofRequest (r.lastId + 1) file request) rfl
      refine .cons ?_ (inductionHypothesis distinct one)
      refine ((adds_addAll one file rest).kept _ fresh).trans ?_
      exact (Keyed.get?_put _ _ _ _).trans (if_pos rfl)

/-! ## Whole operations -/

/-- What setting the breakpoints of a file changes. -/
structure Sets (symbols : SymbolTable) (modules : List ModuleId) (r : BreakpointRegistry)
    (file : String) (requests : List BreakpointRequest) (r' : BreakpointRegistry) : Prop where
  lastId : r'.lastId = r.lastId + UInt32.ofNat requests.length
  addressed : r'.Addressed
  ids : ∀ other, r'.idsOf other =
    if file = other then numbersAfter r.lastId requests.length else r.idsOf other
  files : ∀ id, r'.fileOf? id =
    if id ∈ numbersAfter r.lastId requests.length then some file
    else if id ∈ r.idsOf file then none else r.fileOf? id
  /-- One that is pending is new and has no place, or has nothing to do with the file. -/
  unplaced : ∀ id b, r'.get? id = some b → b.binding = .pending →
    if id ∈ numbersAfter r.lastId requests.length then
      symbols.place? modules b.file b.line = none
    else id ∉ r.idsOf file ∧ r.get? id = some b

/-- The registry between taking the old breakpoints of a file out and binding the new ones. -/
def refill (r : BreakpointRegistry) (file : String) (requests : List BreakpointRequest) :
    BreakpointRegistry :=
  let (ids, r) := r.addAll file requests
  { r with byFile := r.byFile.put file ids }

theorem plays_setBreakpoints {file : String} {requests : List BreakpointRequest}
    {found : List BreakpointInfo × BreakpointRegistry}
    (played : (r.setBreakpoints symbols modules file requests).Plays es found) :
    ∃ first emptied second, es = first ++ second ∧
      ({ r with byFile := r.byFile.erase file }.removeAll (r.idsOf file)).Plays first emptied ∧
      ((emptied.refill file requests).bindAll symbols modules (fun _ => true)
        (numbersAfter emptied.lastId requests.length)).Plays second found := by
  obtain ⟨first, emptied, second, left, right, rfl⟩ := Program.plays_bind_iff.mp played
  refine ⟨first, emptied, second, rfl, left, ?_⟩
  rw [← addAll_ids emptied file requests]
  exact right

/-- What a registry is when the new breakpoints of a file are made and none of them was tried. -/
structure Refills (r : BreakpointRegistry) (file : String) (requests : List BreakpointRequest)
    (r' : BreakpointRegistry) : Prop where
  lastId : r'.lastId = r.lastId + UInt32.ofNat requests.length
  byFile : r'.byFile = (r.byFile.erase file).put file (numbersAfter r.lastId requests.length)
  addressed : r'.Addressed
  added : ∀ id ∈ numbersAfter r.lastId requests.length, ∃ request ∈ requests,
    r'.get? id = some (.ofRequest id file request)
  kept : ∀ id, id ∉ numbersAfter r.lastId requests.length →
    r'.get? id = if id ∈ r.idsOf file then none else r.get? id
  inOrder : (numbersAfter r.lastId requests.length).Nodup →
    List.Forall₂ (fun id request => r'.get? id = some (.ofRequest id file request))
      (numbersAfter r.lastId requests.length) requests

theorem refills_of_plays {file : String} {requests : List BreakpointRequest}
    {found : List BreakpointInfo × BreakpointRegistry} (addressed : r.Addressed)
    (played : (r.setBreakpoints symbols modules file requests).Plays es found) :
    ∃ first made second, es = first ++ second ∧ Refills r file requests made ∧
      (made.bindAll symbols modules (fun _ => true)
        (numbersAfter r.lastId requests.length)).Plays second found := by
  obtain ⟨first, emptied, second, rfl, removed, bound⟩ := plays_setBreakpoints played
  have cleared : Addressed { r with byFile := r.byFile.erase file } :=
    ⟨addressed.distinct, addressed.named⟩
  have removes := removes_of_plays cleared removed
  have inOrder := forall₂_added (r := emptied) file requests
  obtain ⟨lastId, byFile, -, filled, added, kept⟩ :=
    adds_addAll removes.addressed file requests
  have last : emptied.lastId = r.lastId := removes.lastId
  rw [last] at lastId added kept bound inOrder
  refine ⟨first, emptied.refill file requests, second, rfl, ⟨lastId, ?_,
    ⟨filled.distinct, filled.named⟩, added, fun id old => ?_, fun distinct => ?_⟩, bound⟩
  · show (emptied.addAll file requests).2.byFile.put file (emptied.addAll file requests).1 = _
    rw [byFile, removes.byFile, addAll_ids, last]
  · exact (kept id old).trans (removes.get? id)
  · exact inOrder distinct removes.addressed

theorem sets_of_plays {file : String} {requests : List BreakpointRequest}
    {found : List BreakpointInfo × BreakpointRegistry} (addressed : r.Addressed)
    (played : (r.setBreakpoints symbols modules file requests).Plays es found) :
    Sets symbols modules r file requests found.2 := by
  obtain ⟨first, made, second, -, refills, bound⟩ := refills_of_plays addressed played
  have binds := binds_of_plays refills.addressed bound
  refine ⟨?_, binds.addressed, fun other => ?_, fun id => ?_, fun id b here pending => ?_⟩
  · exact binds.lastId.trans refills.lastId
  · rw [idsOf, binds.byFile, refills.byFile, Keyed.get?_put, Keyed.get?_erase]
    split
    · rfl
    · rfl
  · rw [binds.files]
    split
    · rename_i new
      obtain ⟨request, -, here⟩ := refills.added id new
      exact congrArg (Option.map Breakpoint.file) here
    · rename_i old
      rw [fileOf?, refills.kept id old]
      split <;> rfl
  · obtain ⟨before, nowhere⟩ := binds.unplaced id b here pending
    split
    · rename_i new
      exact nowhere new
    · rename_i old
      rw [refills.kept id old] at before
      exact Option.ite_none_left_eq_some.mp before

theorem mem_pendingIds_iff (addressed : r.Addressed) {id : UInt32} :
    id ∈ r.pendingIds ↔ ∃ b, r.get? id = some b ∧ b.binding = .pending := by
  rw [pendingIds, List.mem_mergeSort, List.mem_map]
  constructor
  · intro listed
    obtain ⟨b, member, rfl⟩ := listed
    obtain ⟨member, pending⟩ := List.mem_filter.mp member
    exact ⟨b, addressed.mem_values_iff.mp member, Binding.isPending_iff.mp pending⟩
  · intro holds
    obtain ⟨b, here, pending⟩ := holds
    obtain rfl := addressed.named id b here
    refine ⟨b, List.mem_filter.mpr ⟨addressed.mem_values_iff.mpr here, ?_⟩, rfl⟩
    exact Binding.isPending_iff.mpr pending

theorem nodup_pendingIds (addressed : r.Addressed) : r.pendingIds.Nodup := by
  refine (List.mergeSort_perm _ _).nodup_iff.mpr ?_
  exact addressed.nodup_ids.sublist (List.filter_sublist.map _)

/-- What unloading a module changes. -/
structure Unloads (r : BreakpointRegistry) (module : ModuleId) (r' : BreakpointRegistry) :
    Prop where
  lastId : r'.lastId = r.lastId
  byFile : r'.byFile = r.byFile
  addressed : r'.Addressed
  get? : ∀ id, r'.get? id = (r.get? id).map fun b =>
    if b.isIn module then { b with binding := .pending } else b

/-- Gives up what a breakpoint is bound to. -/
def unbind (r : BreakpointRegistry) (b : Breakpoint) : BreakpointRegistry :=
  (r.dropHandle b).rebind b .pending

theorem get?_unbind (r : BreakpointRegistry) (b : Breakpoint) (id : UInt32) :
    (r.unbind b).get? id =
      if b.id = id then some { b with binding := .pending } else r.get? id := by
  rw [unbind, get?_rebind, get?_dropHandle]

theorem Addressed.unbind (addressed : r.Addressed) (b : Breakpoint) : (r.unbind b).Addressed :=
  addressed.put (b := { b with binding := .pending })
    (by simp [BreakpointRegistry.unbind, BreakpointRegistry.rebind])

/-- The breakpoints that lose their place with a module. -/
def affected (r : BreakpointRegistry) (module : ModuleId) : List Breakpoint :=
  (r.breakpoints.values.filter (·.isIn module)).mergeSort fun a b => a.id ≤ b.id

theorem mem_affected_iff (addressed : r.Addressed) {module : ModuleId} {b : Breakpoint} :
    b ∈ r.affected module ↔ r.get? b.id = some b ∧ b.isIn module = true := by
  rw [affected, List.mem_mergeSort, List.mem_filter, addressed.mem_values_iff]

theorem nodup_affected (addressed : r.Addressed) (module : ModuleId) :
    ((r.affected module).map (·.id)).Nodup := by
  refine ((List.mergeSort_perm _ _).map _).nodup_iff.mpr ?_
  exact addressed.nodup_ids.sublist (List.filter_sublist.map _)

/-- Whatever each unbinding of some breakpoints of the registry keeps, all of them keep. -/
theorem foldl_unbind {P : BreakpointRegistry → Prop} {bs : List Breakpoint}
    (distinct : (bs.map (·.id)).Nodup) (among : ∀ b ∈ bs, r.get? b.id = some b)
    (kept : ∀ (r : BreakpointRegistry) (b : Breakpoint), r.get? b.id = some b → P r →
      P (r.unbind b)) (start : P r) : P (bs.foldl unbind r) := by
  induction bs generalizing r with
  | nil => exact start
  | cons b rest inductionHypothesis =>
      obtain ⟨fresh, distinct⟩ := List.nodup_cons.mp distinct
      obtain ⟨here, others⟩ := List.forall_mem_cons.mp among
      refine inductionHypothesis distinct (fun c member => ?_) (kept r b here start)
      have different : b.id ≠ c.id := fun same =>
        fresh (List.mem_map.mpr ⟨c, member, same.symm⟩)
      rw [get?_unbind, if_neg different]
      exact others c member

theorem get?_foldl_unbind {bs : List Breakpoint} (distinct : (bs.map (·.id)).Nodup)
    (id : UInt32) (r : BreakpointRegistry) :
    (∀ b ∈ bs, b.id = id → (bs.foldl unbind r).get? id = some { b with binding := .pending }) ∧
    ((∀ b ∈ bs, b.id ≠ id) → (bs.foldl unbind r).get? id = r.get? id) := by
  induction bs generalizing r with
  | nil => exact ⟨nofun, fun _ => rfl⟩
  | cons b rest inductionHypothesis =>
      obtain ⟨fresh, distinct⟩ := List.nodup_cons.mp distinct
      obtain ⟨found, untouched⟩ := inductionHypothesis distinct (r.unbind b)
      refine ⟨fun c member own => ?_, fun absent => ?_⟩
      · cases List.mem_cons.mp member with
        | inr later => exact found c later own
        | inl first =>
            subst first own
            refine (untouched fun d later same => ?_).trans ?_
            · exact fresh (List.mem_map.mpr ⟨d, later, same⟩)
            · rw [get?_unbind, if_pos rfl]
      · obtain ⟨different, others⟩ := List.forall_mem_cons.mp absent
        refine (untouched others).trans ?_
        rw [get?_unbind, if_neg different]

theorem unloads_moduleUnloaded (addressed : r.Addressed) (module : ModuleId) :
    r.Unloads module (r.moduleUnloaded module).2 := by
  have distinct := nodup_affected addressed module
  have among : ∀ b ∈ r.affected module, r.get? b.id = some b := fun b member =>
    ((mem_affected_iff addressed).mp member).1
  have every {P : BreakpointRegistry → Prop} (kept : ∀ (r : BreakpointRegistry) b,
      r.get? b.id = some b → P r → P (r.unbind b)) (start : P r) :
      P (r.moduleUnloaded module).2 :=
    foldl_unbind distinct among kept start
  refine ⟨?_, ?_, ?_, fun id => ?_⟩
  · exact every (P := fun r' => r'.lastId = r.lastId)
      (fun r' b _ same => (lastId_dropHandle r' b).trans same) rfl
  · exact every (P := fun r' => r'.byFile = r.byFile)
      (fun r' b _ same => (byFile_dropHandle r' b).trans same) rfl
  · exact every (P := Addressed) (fun r' b _ addressed => addressed.unbind b) addressed
  · obtain ⟨found, untouched⟩ := get?_foldl_unbind distinct id r
    cases here : r.get? id with
    | none =>
        refine (untouched fun b member own => ?_).trans here
        rw [← own, among b member] at here
        cases here
    | some b =>
        have own : b.id = id := addressed.named id b here
        cases inside : b.isIn module with
        | true =>
            have member : b ∈ r.affected module :=
              (mem_affected_iff addressed).mpr ⟨own ▸ here, inside⟩
            refine (found b member own).trans ?_
            simp [inside]
        | false =>
            refine (untouched fun c member same => ?_).trans (by simpa [inside] using here)
            obtain ⟨there, outside⟩ := (mem_affected_iff addressed).mp member
            rw [same, here] at there
            cases there
            rw [inside] at outside
            cases outside

theorem Unloads.files {module : ModuleId} (unloads : r.Unloads module r') (id : UInt32) :
    r'.fileOf? id = r.fileOf? id := by
  rw [fileOf?, unloads.get?, fileOf?, Option.map_map]
  refine congrArg (Option.map · (r.get? id)) (funext fun b => ?_)
  simp only [Function.comp_apply]
  split <;> rfl

theorem get?_recordHit (r : BreakpointRegistry) (id other : UInt32) :
    (r.recordHit id).2.get? other = (r.get? other).map fun b =>
      if other = id then { b with hits := b.hits + 1 } else b := by
  unfold recordHit
  split
  · rename_i absent
    by_cases own : other = id
    · simp [own, absent]
    · simp [own]
  · rename_i b here
    refine (Keyed.get?_put r.breakpoints id other _).trans ?_
    by_cases own : other = id
    · simp [own, here]
    · simp [own, Ne.symm own, get?]

theorem files_recordHit (r : BreakpointRegistry) (id other : UInt32) :
    (r.recordHit id).2.fileOf? other = r.fileOf? other := by
  rw [fileOf?, get?_recordHit, fileOf?, Option.map_map]
  refine congrArg (Option.map · (r.get? other)) (funext fun b => ?_)
  simp only [Function.comp_apply]
  split <;> rfl

theorem lastId_recordHit (r : BreakpointRegistry) (id : UInt32) :
    (r.recordHit id).2.lastId = r.lastId := by
  unfold recordHit
  split <;> rfl

theorem byFile_recordHit (r : BreakpointRegistry) (id : UInt32) :
    (r.recordHit id).2.byFile = r.byFile := by
  unfold recordHit
  split <;> rfl

theorem byHandle_recordHit (r : BreakpointRegistry) (id : UInt32) :
    (r.recordHit id).2.byHandle = r.byHandle := by
  unfold recordHit
  split <;> rfl

/-- Numbers and files are as they were. -/
structure KeepsFiles (r r' : BreakpointRegistry) : Prop where
  lastId : r'.lastId = r.lastId
  byFile : r'.byFile = r.byFile
  files : ∀ id, r'.fileOf? id = r.fileOf? id

theorem Addressed.recordHit (addressed : r.Addressed) (id : UInt32) :
    (r.recordHit id).2.Addressed := by
  unfold BreakpointRegistry.recordHit
  split
  · exact addressed
  · rename_i b here
    obtain rfl := addressed.named id b here
    exact addressed.put (b := { b with hits := b.hits + 1 }) rfl

end BreakpointRegistry

/-! ## Uses of a registry -/

inductive BreakpointCommand where
  | set (file : String) (requests : List BreakpointRequest)
  | load (module : ModuleId)
  | unload (module : ModuleId)
  | hit (id : UInt32)

def BreakpointCommand.program (symbols : SymbolTable) (modules : List ModuleId)
    (r : BreakpointRegistry) : BreakpointCommand → Program nativeEffect BreakpointRegistry
  | set file requests => (r.setBreakpoints symbols modules file requests).bind fun found =>
      .done found.2
  | load module => (r.moduleLoaded symbols module).bind fun found => .done found.2
  | unload module => .done (r.moduleUnloaded module).2
  | hit id => .done (r.recordHit id).2

/-- How many breakpoints are asked for. -/
def BreakpointCommand.asked : BreakpointCommand → Nat
  | set _ requests => requests.length
  | _ => 0

/-- A use of the breakpoints, with the modules that are loaded and the symbols that are known at
the time. -/
structure BreakpointUse where
  modules : List ModuleId
  symbols : SymbolTable
  command : BreakpointCommand
  before : BreakpointRegistry
  exchanges : List (Exchange nativeEffect)
  after : BreakpointRegistry

namespace BreakpointUse

def Happens (u : BreakpointUse) : Prop :=
  (u.command.program u.symbols u.modules u.before).Plays u.exchanges u.after

/-- All that a use can do. -/
def Does (u : BreakpointUse) : Prop :=
  match u.command with
  | .set file requests => BreakpointRegistry.Sets u.symbols u.modules u.before file requests u.after
  | .load module =>
    BreakpointRegistry.Binds u.symbols [module] u.before u.before.pendingIds u.after
  | .unload module => u.before.Unloads module u.after
  | .hit id => u.after = (u.before.recordHit id).2

variable {u : BreakpointUse}

theorem Happens.does (happens : u.Happens) (addressed : u.before.Addressed) : u.Does := by
  obtain ⟨modules, symbols, command, before, exchanges, after⟩ := u
  cases command with
  | set file requests =>
      obtain ⟨first, found, second, played, ended, rfl⟩ := Program.plays_bind_iff.mp happens
      obtain ⟨rfl, rfl⟩ := Program.plays_done_iff.mp ended
      exact BreakpointRegistry.sets_of_plays addressed played
  | load module =>
      obtain ⟨first, found, second, played, ended, rfl⟩ := Program.plays_bind_iff.mp happens
      obtain ⟨rfl, rfl⟩ := Program.plays_done_iff.mp ended
      exact BreakpointRegistry.binds_of_plays addressed played
  | unload module =>
      obtain ⟨-, same⟩ := Program.plays_done_iff.mp happens
      have same : after = (before.moduleUnloaded module).2 := same
      subst same
      exact BreakpointRegistry.unloads_moduleUnloaded addressed module
  | hit id =>
      exact (Program.plays_done_iff.mp happens).2

/-- A use that sets no breakpoints changes neither numbers nor files. -/
theorem Happens.sets_or_keepsFiles (happens : u.Happens) (addressed : u.before.Addressed) :
    (∃ file requests, u.command = .set file requests ∧
      BreakpointRegistry.Sets u.symbols u.modules u.before file requests u.after) ∨
    u.command.asked = 0 ∧ u.before.KeepsFiles u.after := by
  have does := happens.does addressed
  obtain ⟨modules, symbols, command, before, exchanges, after⟩ := u
  cases command with
  | set file requests => exact .inl ⟨file, requests, rfl, does⟩
  | load module =>
      have binds : BreakpointRegistry.Binds symbols [module] before before.pendingIds after := does
      exact .inr ⟨rfl, binds.lastId, binds.byFile, binds.files⟩
  | unload module =>
      have unloads : before.Unloads module after := does
      exact .inr ⟨rfl, unloads.lastId, unloads.byFile, unloads.files⟩
  | hit id =>
      obtain rfl : after = (before.recordHit id).2 := does
      exact .inr ⟨rfl, before.lastId_recordHit id, before.byFile_recordHit id,
        before.files_recordHit id⟩

theorem Happens.addressed (happens : u.Happens) (addressed : u.before.Addressed) :
    u.after.Addressed := by
  have does := happens.does addressed
  obtain ⟨modules, symbols, command, before, exchanges, after⟩ := u
  cases command with
  | set file requests => exact BreakpointRegistry.Sets.addressed does
  | load module => exact BreakpointRegistry.Binds.addressed does
  | unload module => exact BreakpointRegistry.Unloads.addressed does
  | hit id =>
      obtain rfl : after = (before.recordHit id).2 := does
      exact addressed.recordHit id

end BreakpointUse

namespace BreakpointRegistry

/-- Uses one after the other, from a registry to a registry. -/
inductive Runs : BreakpointRegistry → List BreakpointUse → BreakpointRegistry → Prop where
  | nil (r : BreakpointRegistry) : Runs r [] r
  | cons {u : BreakpointUse} {us : List BreakpointUse} {r : BreakpointRegistry} :
      u.Happens → Runs u.after us r → Runs u.before (u :: us) r

/-! A target that hands out one handle after the other and refuses nothing. -/

def handOut (next : UInt32) : (call : NativeCall) → call.Reply × UInt32
  | .createBreakpoint .. => (.ok ⟨next⟩, next + 1)
  | .setBreakpointActive .. => (.ok (), next)
  | _ => (.error (.protocol "unused"), next)

/-- A module with code on the first line of a file. -/
def firstLine (file : String) : ModuleSymbols :=
  ⟨[⟨1, file, 8, [⟨0, 1, 1, 1, 2⟩], none, [], []⟩], none⟩

/-- Uses the breakpoints in some ways, one after the other. -/
def uses (next : UInt32) (r : BreakpointRegistry) :
    List (List ModuleId × SymbolTable × BreakpointCommand) → List BreakpointUse
  | [] => []
  | (modules, symbols, command) :: rest =>
    let ended := (command.program symbols modules r).simulate handOut next
    ⟨modules, symbols, command, r, ended.1, ended.2.2⟩ :: uses ended.2.1 ended.2.2 rest

/-- The registry after some uses. -/
def afterUses (r : BreakpointRegistry) (us : List BreakpointUse) : BreakpointRegistry :=
  (us.getLast?.map (·.after)).getD r

theorem runs_uses (next : UInt32) (r : BreakpointRegistry)
    (ways : List (List ModuleId × SymbolTable × BreakpointCommand)) :
    Runs r (uses next r ways) (afterUses r (uses next r ways)) := by
  induction ways generalizing next r with
  | nil => exact .nil r
  | cons way rest inductionHypothesis =>
      obtain ⟨modules, symbols, command⟩ := way
      let ended := (command.program symbols modules r).simulate handOut next
      have last : afterUses r (uses next r ((modules, symbols, command) :: rest)) =
          afterUses ended.2.2 (uses ended.2.1 ended.2.2 rest) := by
        rw [uses, afterUses, afterUses, List.getLast?_cons]
        cases (uses ended.2.1 ended.2.2 rest).getLast? <;> rfl
      rw [last]
      have happens := Program.plays_simulate (E := nativeEffect) handOut
        (command.program symbols modules r) next
      exact .cons (u := ⟨modules, symbols, command, r, ended.1, ended.2.2⟩) happens
        (inductionHypothesis _ _)

end BreakpointRegistry

end ManagedDebugger
