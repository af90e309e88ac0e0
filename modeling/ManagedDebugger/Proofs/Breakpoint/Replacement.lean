import Mathlib.Data.List.Nodup
import ManagedDebugger.Proofs.Breakpoint.Granted
import ManagedDebugger.Proofs.Breakpoint.HandedOut

/-!
# Replacing the breakpoints of a file

When the breakpoints of a file are set anew, each request gets a breakpoint with a number that was
never used, in order. What the old ones of the file were bound to is switched off, once each, and
nothing else is. The breakpoints of other files are as they were, wherever they are bound, and
whatever the target refuses on the way.
-/

namespace ManagedDebugger

/-! ## What is switched off -/

/-- The breakpoint of the target that a call switches on or off. -/
def Exchange.switched? : Exchange nativeEffect → Option (NativeBreakpointId × Bool)
  | ⟨.setBreakpointActive handle active, _⟩ => some (handle, active)
  | _ => none

def switched (es : List (Exchange nativeEffect)) : List (NativeBreakpointId × Bool) :=
  es.filterMap Exchange.switched?

@[simp]
theorem switched_append (first second : List (Exchange nativeEffect)) :
    switched (first ++ second) = switched first ++ switched second :=
  List.filterMap_append

theorem switched_cons (x : Exchange nativeEffect) (rest : List (Exchange nativeEffect)) :
    switched (x :: rest) = x.switched?.toList ++ switched rest := by
  rw [switched, List.filterMap_cons]
  cases x.switched? <;> rfl

theorem mem_heldAfter {held held' : List NativeBreakpointId} {x : Exchange nativeEffect}
    {handle : NativeBreakpointId} (given : heldAfter held x = some held')
    (still : handle ∈ held') :
    (Exchange.ofNative x).handedOut? = some handle ∨
      handle ∈ held ∧ x.switched? ≠ some (handle, false) := by
  unfold heldAfter at given
  split at given
  · rename_i method offset other
    obtain ⟨-, same⟩ := Option.ite_none_left_eq_some.mp given
    obtain rfl := Option.some.inj same
    rcases List.mem_cons.mp still with rfl | before
    · exact .inl rfl
    · exact .inr ⟨before, nofun⟩
  · rename_i other reply
    obtain rfl := Option.some.inj given
    obtain ⟨before, different⟩ := List.mem_filter.mp still
    refine .inr ⟨before, fun same => of_decide_eq_true different ?_⟩
    exact (congrArg Prod.fst (Option.some.inj same)).symm
  · rename_i notOff
    obtain rfl := Option.some.inj given
    refine .inr ⟨still, fun same => ?_⟩
    unfold Exchange.switched? at same
    split at same
    · cases same
      exact notOff _ _ rfl
    · cases same

/-- What is held in the end was just handed out, or was held before and has not been given up. -/
theorem mem_held_of_allows {held held' : List NativeBreakpointId}
    {es : List (Exchange nativeEffect)} {handle : NativeBreakpointId}
    (allowed : Lending.Allows held es held') (still : handle ∈ held') :
    handle ∈ handedOut (es.map .ofNative) ∨ handle ∈ held ∧ (handle, false) ∉ switched es := by
  induction es generalizing held with
  | nil =>
      obtain rfl := Environment.allows_nil_iff.mp allowed
      exact .inr ⟨still, List.not_mem_nil⟩
  | cons x rest inductionHypothesis =>
      obtain ⟨held₁, given, following⟩ := Environment.allows_cons_iff.mp allowed
      rw [List.map_cons, handedOut_cons, List.mem_append, Option.mem_toList, switched_cons,
        List.mem_append, Option.mem_toList, not_or]
      rcases inductionHypothesis following with handed | ⟨before, kept⟩
      · exact .inl (.inr handed)
      · rcases mem_heldAfter given before with handed | ⟨before, own⟩
        · exact .inl (.inl handed)
        · exact .inr ⟨before, own, kept⟩

namespace BreakpointRegistry

variable {symbols : SymbolTable} {modules : List ModuleId} {r r' : BreakpointRegistry}
  {es : List (Exchange nativeEffect)} {file : String} {requests : List BreakpointRequest}
  {id : UInt32} {handle : NativeBreakpointId} {b : Breakpoint}

/-- What a breakpoint is bound to in the target. -/
def handleOf? (r : BreakpointRegistry) (id : UInt32) : Option NativeBreakpointId :=
  (r.get? id).bind (·.binding.handle?)

theorem handleOf?_eq_some_iff : r.handleOf? id = some handle ↔ r.Holds handle id :=
  Option.bind_eq_some_iff

theorem Named.remove (named : r.Named) (b : Breakpoint) : (r.remove b).Named := by
  intro id c here
  rw [get?_remove] at here
  exact named id c (Option.ite_none_left_eq_some.mp here).2

/-- The calls that take some breakpoints out are those that switch their handles off. -/
theorem switched_removeAll {ids : List UInt32} (named : r.Named) (distinct : ids.Nodup)
    (played : (r.removeAll ids).Plays es r') :
    switched es = (ids.filterMap r.handleOf?).map fun handle => (handle, false) := by
  have kept {r : BreakpointRegistry} {b : Breakpoint} {rest : List UInt32} (fresh : b.id ∉ rest) :
      rest.filterMap (r.remove b).handleOf? = rest.filterMap r.handleOf? := by
    apply List.filterMap_congr
    intro other member
    have different : b.id ≠ other := fun same => fresh (same ▸ member)
    rw [handleOf?, get?_remove, if_neg different, handleOf?]
  induction ids generalizing r es with
  | nil =>
      obtain ⟨rfl, -⟩ := Program.plays_done_iff.mp played
      rfl
  | cons id rest inductionHypothesis =>
      obtain ⟨fresh, apart⟩ := List.nodup_cons.mp distinct
      rcases plays_removeAll_cons played with ⟨absent, others⟩ |
        ⟨b, here, ⟨unheld, others⟩ | ⟨handle, reply, second, own, rfl, others⟩⟩
      · have none : r.handleOf? id = none := by simp [handleOf?, absent]
        rw [inductionHypothesis named apart others, List.filterMap_cons_none none]
      · obtain rfl := named id b here
        have none : r.handleOf? b.id = none := by simp [handleOf?, here, unheld]
        rw [inductionHypothesis (named.remove b) apart others, List.filterMap_cons_none none,
          kept fresh]
      · obtain rfl := named id b here
        have some : r.handleOf? b.id = some handle := by simp [handleOf?, here, own]
        rw [switched_cons, inductionHypothesis (named.remove b) apart others,
          List.filterMap_cons_some some, kept fresh]
        rfl

theorem switched_bindAll {report : Bool → Bool} {ids : List UInt32}
    {found : List BreakpointInfo × BreakpointRegistry}
    (played : (r.bindAll symbols modules report ids).Plays es found) : switched es = [] := by
  induction ids generalizing r es found with
  | nil =>
      obtain ⟨rfl, -⟩ := Program.plays_done_iff.mp played
      rfl
  | cons id rest inductionHypothesis =>
      obtain ⟨first, tried, second, told, tries, others, rfl, -⟩ := plays_bindAll_cons played
      rw [switched_append, inductionHypothesis others, List.append_nil]
      cases tries with
      | unplaced nowhere => rfl
      | asked here placed reply => rfl

theorem switched_setBreakpoints {found : List BreakpointInfo × BreakpointRegistry}
    (named : r.Named) (filed : r.Filed)
    (played : (r.setBreakpoints symbols modules file requests).Plays es found) :
    switched es = ((r.idsOf file).filterMap r.handleOf?).map fun handle => (handle, false) := by
  obtain ⟨first, emptied, second, rfl, removed, bound⟩ := plays_setBreakpoints played
  rw [switched_append, switched_bindAll bound, List.append_nil]
  exact switched_removeAll (r := { r with byFile := r.byFile.erase file }) named
    (filed.nodup file) removed

/-! ## What is reported -/

theorem told_bindAll_cons {id : UInt32} {rest : List UInt32}
    {found : List BreakpointInfo × BreakpointRegistry}
    (played : (r.bindAll symbols modules (fun _ => true) (id :: rest)).Plays es found) :
    ∃ first tried second told, Tries symbols modules r id first tried ∧
      (tried.2.bindAll symbols modules (fun _ => true) rest).Plays second told ∧
      found = (((tried.2.get? id).map Breakpoint.info).toList ++ told.1, told.2) := by
  obtain ⟨first, tried, following, own, continued, rfl⟩ := Program.plays_bind_iff.mp played
  obtain ⟨second, told, last, others, ended, rfl⟩ := Program.plays_bind_iff.mp continued
  obtain ⟨rfl, rfl⟩ := Program.plays_done_iff.mp ended
  exact ⟨first, tried, second, told, tries_of_plays own, others, rfl⟩

/-- Each breakpoint is reported as it is in the end. -/
theorem told_bindAll {ids : List UInt32} {found : List BreakpointInfo × BreakpointRegistry}
    (addressed : r.Addressed) (distinct : ids.Nodup)
    (played : (r.bindAll symbols modules (fun _ => true) ids).Plays es found) :
    found.1 = (ids.filterMap found.2.get?).map Breakpoint.info := by
  induction ids generalizing r es found with
  | nil =>
      obtain ⟨-, rfl⟩ := Program.plays_done_iff.mp played
      rfl
  | cons id rest inductionHypothesis =>
      obtain ⟨fresh, distinct⟩ := List.nodup_cons.mp distinct
      obtain ⟨first, tried, second, told, tries, others, rfl⟩ := told_bindAll_cons played
      have addressed' := (tries.binds addressed).addressed
      have settled : told.2.get? id = tried.2.get? id := get?_bindAll addressed' others fresh
      have later := inductionHypothesis addressed' distinct others
      rw [later, List.filterMap_cons, settled]
      cases tried.2.get? id <;> rfl

/-- Each request has its breakpoint, apart from what became of it in the target. -/
theorem requested?_setBreakpoints {found : List BreakpointInfo × BreakpointRegistry}
    (addressed : r.Addressed) (distinct : (numbersAfter r.lastId requests.length).Nodup)
    (played : (r.setBreakpoints symbols modules file requests).Plays es found) :
    found.1 = ((numbersAfter r.lastId requests.length).filterMap found.2.get?).map
        Breakpoint.info ∧
      List.Forall₂ (fun id request => found.2.requested? id = some (.ofRequest id file request))
        (numbersAfter r.lastId requests.length) requests := by
  obtain ⟨first, made, second, rfl, refills, bound⟩ := refills_of_plays addressed played
  refine ⟨told_bindAll refills.addressed distinct bound, ?_⟩
  apply (refills.inOrder distinct).imp
  intro id request here
  rw [requested?_of_bindAll refills.addressed bound]
  exact congrArg (Option.map Breakpoint.unbound) here

/-- A breakpoint that no request was made for is taken out with the file, or is as it was. -/
theorem get?_setBreakpoints {found : List BreakpointInfo × BreakpointRegistry}
    (addressed : r.Addressed)
    (played : (r.setBreakpoints symbols modules file requests).Plays es found)
    (old : id ∉ numbersAfter r.lastId requests.length) :
    found.2.get? id = if id ∈ r.idsOf file then none else r.get? id := by
  obtain ⟨first, made, second, rfl, refills, bound⟩ := refills_of_plays addressed played
  rw [get?_bindAll refills.addressed bound old, refills.kept id old]

/-! ## One file is replaced -/

theorem Filed.mem_forFile_iff (named : r.Named) (filed : r.Filed) :
    b ∈ r.forFile file ↔ r.get? b.id = some b ∧ b.file = file := by
  constructor
  · intro member
    obtain ⟨id, listed, here⟩ := List.mem_filterMap.mp member
    obtain rfl := named id b here
    obtain ⟨c, there, own⟩ := fileOf?_eq_some_iff.mp ((filed.listed file b.id).mp listed)
    cases here.symm.trans there
    exact ⟨here, own⟩
  · rintro ⟨here, own⟩
    refine List.mem_filterMap.mpr ⟨b.id, ?_, here⟩
    exact (filed.listed file b.id).mpr (fileOf?_eq_some_iff.mpr ⟨b, here, own⟩)

/-- What becomes of the breakpoints when those of a file are set anew. -/
structure Replaces (r : BreakpointRegistry) (file : String) (requests : List BreakpointRequest)
    (es : List (Exchange nativeEffect)) (infos : List BreakpointInfo) (r' : BreakpointRegistry) :
    Prop where
  /-- Each request has its breakpoint, and each breakpoint is reported. -/
  made : List.Forall₂ (fun b request => b.unbound = .ofRequest b.id file request)
    (r'.forFile file) requests
  told : infos = (r'.forFile file).map Breakpoint.info
  /-- These are the breakpoints of the file. -/
  own : ∀ id b, r'.get? id = some b → (b.file = file ↔ b ∈ r'.forFile file)
  /-- What the old ones were bound to is switched off, and nothing else is switched. -/
  off : ∀ handle active, (handle, active) ∈ switched es ↔ active = false ∧
    ∃ id b, r.get? id = some b ∧ b.file = file ∧ b.binding.handle? = some handle
  once : (switched es).Nodup
  unresolved : ∀ handle active, (handle, active) ∈ switched es → r'.byHandle? handle = none
  /-- Other files are as they were. -/
  others : ∀ id b, b.file ≠ file → (r'.get? id = some b ↔ r.get? id = some b)
  files : ∀ other, other ≠ file → r'.forFile other = r.forFile other
  handles : ∀ handle b, b.file ≠ file →
    (r'.byHandle? handle = some b ↔ r.byHandle? handle = some b)

theorem get?_of_requested? {request : BreakpointRequest}
    (requested : r.requested? id = some (.ofRequest id file request)) :
    ∃ b, r.get? id = some b ∧ b.id = id ∧ b.unbound = .ofRequest b.id file request := by
  obtain ⟨b, here, same⟩ := Option.map_eq_some_iff.mp requested
  have own : b.id = id := congrArg Breakpoint.id same
  exact ⟨b, here, own, own ▸ same⟩

theorem forall₂_forFile {ids : List UInt32}
    (requested : List.Forall₂ (fun id request =>
      r.requested? id = some (.ofRequest id file request)) ids requests) :
    List.Forall₂ (fun b request => b.unbound = .ofRequest b.id file request)
        (ids.filterMap r.get?) requests ∧
      (ids.filterMap r.get?).map (·.id) = ids := by
  induction requested with
  | nil => exact ⟨.nil, rfl⟩
  | @cons id request ids requests own _ inductionHypothesis =>
      obtain ⟨b, here, rfl, made⟩ := get?_of_requested? own
      obtain ⟨others, listed⟩ := inductionHypothesis
      rw [List.filterMap_cons_some here, List.map_cons, listed]
      exact ⟨.cons made others, rfl⟩

/-- The breakpoints of other files do not get in the way of the new numbers. -/
theorem get?_other_iff {found : List BreakpointInfo × BreakpointRegistry}
    (addressed : r.Addressed) (filed : r.Filed) (free : r.NumbersFree file requests.length)
    (played : (r.setBreakpoints symbols modules file requests).Plays es found)
    (other : b.file ≠ file) : found.2.get? id = some b ↔ r.get? id = some b := by
  have sets := sets_of_plays addressed played
  constructor
  · intro here
    have old : id ∉ numbersAfter r.lastId requests.length := by
      intro new
      have renewed := sets.files id
      rw [if_pos new, fileOf?, here] at renewed
      exact other (Option.some.inj renewed)
    rw [get?_setBreakpoints addressed played old] at here
    exact (Option.ite_none_left_eq_some.mp here).2
  · intro here
    have old : id ∉ numbersAfter r.lastId requests.length := fun new =>
      other (free.2 id new b here)
    have unlisted : id ∉ r.idsOf file := by
      intro listed
      obtain ⟨c, there, own⟩ := fileOf?_eq_some_iff.mp ((filed.listed file id).mp listed)
      cases here.symm.trans there
      exact other own
    rw [get?_setBreakpoints addressed played old, if_neg unlisted]
    exact here

/-- The handles that breakpoints of a file hold. -/
theorem Filed.mem_handles_iff (filed : r.Filed) : handle ∈ (r.idsOf file).filterMap r.handleOf? ↔
    ∃ id b, r.get? id = some b ∧ b.file = file ∧ b.binding.handle? = some handle := by
  simp only [List.mem_filterMap, filed.listed, fileOf?_eq_some_iff, handleOf?_eq_some_iff]
  constructor
  · rintro ⟨id, ⟨b, here, own⟩, c, there, held⟩
    cases here.symm.trans there
    exact ⟨id, b, here, own, held⟩
  · rintro ⟨id, b, here, own, held⟩
    exact ⟨id, ⟨b, here, own⟩, b, here, held⟩

theorem Indexed.nodup_handles (indexed : r.Indexed) {ids : List UInt32} (distinct : ids.Nodup) :
    (ids.filterMap r.handleOf?).Nodup := by
  apply distinct.filterMap
  intro id other handle holds again
  exact indexed.unshared (handleOf?_eq_some_iff.mp holds) (handleOf?_eq_some_iff.mp again)

theorem forFile_other {found : List BreakpointInfo × BreakpointRegistry} {other : String}
    (addressed : r.Addressed) (filed : r.Filed) (free : r.NumbersFree file requests.length)
    (played : (r.setBreakpoints symbols modules file requests).Plays es found)
    (different : other ≠ file) : found.2.forFile other = r.forFile other := by
  have same : found.2.idsOf other = r.idsOf other :=
    ((sets_of_plays addressed played).ids other).trans (if_neg (Ne.symm different))
  have listed : ∀ id ∈ r.idsOf other, found.2.get? id = r.get? id := by
    intro id member
    obtain ⟨b, here, rfl⟩ := fileOf?_eq_some_iff.mp ((filed.listed other id).mp member)
    rw [here]
    exact (get?_other_iff addressed filed free played different).mpr here
  exact (congrArg (List.filterMap _) same).trans (List.filterMap_congr listed)

theorem replaces_of_plays {found : List BreakpointInfo × BreakpointRegistry}
    (indexed : r.Indexed) (filed : r.Filed) (free : r.NumbersFree file requests.length)
    (distinct : (handedOut (es.map .ofNative)).Nodup)
    (unheld : ∀ handle ∈ handedOut (es.map .ofNative), handle ∉ r.handles)
    (played : (r.setBreakpoints symbols modules file requests).Plays es found) :
    r.Replaces file requests es found.1 found.2 ∧
      found.1.map (·.id) = numbersAfter r.lastId requests.length := by
  have addressed := indexed.toAddressed
  have sets := sets_of_plays addressed played
  have filed' := sets.filed filed free
  obtain ⟨held, allowed, -⟩ := exists_lending distinct unheld
  have accounted : Accounted held found.2 :=
    Accounted.setBreakpoints ⟨indexed, fun _ _ holds => addressed.mem_handles holds⟩ filed free
      played allowed
  have switchedOff := switched_setBreakpoints addressed.named filed played
  obtain ⟨told, requested⟩ := requested?_setBreakpoints addressed free.1 played
  obtain ⟨made, ids⟩ := forall₂_forFile requested
  have listed : found.2.forFile file =
      (numbersAfter r.lastId requests.length).filterMap found.2.get? :=
    congrArg (List.filterMap _) ((sets.ids file).trans (if_pos rfl))
  have off (handle : NativeBreakpointId) (active : Bool) : (handle, active) ∈ switched es ↔
      active = false ∧
        ∃ id b, r.get? id = some b ∧ b.file = file ∧ b.binding.handle? = some handle := by
    rw [switchedOff, ← filed.mem_handles_iff]
    simp [and_comm, eq_comm]
  rw [← listed] at told made ids
  refine ⟨⟨made, told, fun id b here => ?_, off, ?_, fun handle active given => ?_,
    fun id b => get?_other_iff addressed filed free played,
    fun other => forFile_other addressed filed free played, fun handle b other => ?_⟩, ?_⟩
  · obtain rfl := accounted.indexed.named id b here
    rw [filed'.mem_forFile_iff accounted.indexed.named]
    simp [here]
  · rw [switchedOff]
    exact (indexed.nodup_handles (filed.nodup file)).map fun _ _ same => congrArg Prod.fst same
  · refine Option.eq_none_iff_forall_ne_some.mpr fun c found => ?_
    obtain ⟨rfl, id, b, here, own, held⟩ := (off handle active).mp given
    obtain ⟨there, again⟩ := accounted.indexed.resolves.mp found
    have still := accounted.covered handle c.id ⟨c, there, again⟩
    -- It would have to be handed out again, and it is not, for the file had it before.
    rcases mem_held_of_allows allowed still with handed | ⟨-, kept⟩
    · exact unheld handle handed (addressed.mem_handles ⟨b, here, held⟩)
    · exact kept given
  · rw [accounted.indexed.resolves, indexed.resolves,
      get?_other_iff addressed filed free played other]
  · rw [told, List.map_map, ← ids]
    rfl

/-! ## Over a history -/

theorem toNat_number {k : Nat} (few : k < UInt32.size) : (UInt32.ofNat k).toNat = k :=
  UInt32.toNat_ofNat'.trans (Nat.mod_eq_of_lt few)

theorem toNat_of_mem_numbersAfter {n count : Nat} (few : n + count < UInt32.size)
    (member : id ∈ numbersAfter (.ofNat n) count) : n < id.toNat ∧ id.toNat ≤ n + count := by
  obtain ⟨k, above, below, rfl⟩ := mem_numbersAfter member
  rw [toNat_number (by omega)]
  exact ⟨above, below⟩

theorem pairwise_numbersAfter {n count : Nat} (few : n + count < UInt32.size) :
    (numbersAfter (.ofNat n) count).Pairwise (· < ·) := by
  induction count generalizing n with
  | zero => exact .nil
  | succ count inductionHypothesis =>
      have next : UInt32.ofNat n + 1 = .ofNat (n + 1) := (UInt32.ofNat_add n 1).symm
      rw [numbersAfter, next]
      refine .cons (fun id member => ?_) (inductionHypothesis (by omega))
      have above := (toNat_of_mem_numbersAfter (by omega) member).1
      rw [UInt32.lt_iff_toNat_lt, toNat_number (by omega)]
      exact above

end BreakpointRegistry

namespace BreakpointUse

open BreakpointRegistry

/-- The numbers that a use gives to new breakpoints. -/
def given (u : BreakpointUse) : List UInt32 :=
  match u.command with
  | .set file _ => u.after.idsOf file
  | _ => []

/-- The handles that the target hands out in some uses. -/
def handedOut (us : List BreakpointUse) : List NativeBreakpointId :=
  us.flatMap fun u => ManagedDebugger.handedOut (u.exchanges.map .ofNative)

theorem Happens.given {u : BreakpointUse} {n : Nat} (happens : u.Happens)
    (addressed : u.before.Addressed) (numbered : u.before.Numbered n)
    (few : n + u.command.asked < UInt32.size) :
    ∀ id ∈ u.given, n < id.toNat ∧ id.toNat ≤ n + u.command.asked := by
  intro id member
  have does := happens.does addressed
  unfold BreakpointUse.given at member
  split at member
  · rename_i file requests command
    rw [command] at few ⊢
    simp only [Does, command] at does
    have listed := does.ids file
    rw [if_pos rfl, numbered.last] at listed
    rw [listed] at member
    exact toNat_of_mem_numbersAfter few member
  · cases member

end BreakpointUse

namespace BreakpointRegistry

variable {r r' : BreakpointRegistry} {us : List BreakpointUse} {n : Nat}

/-- The numbers that are given out go up. -/
theorem Runs.given (run : Runs r us r') (addressed : r.Addressed) (numbered : r.Numbered n)
    (few : n + BreakpointUse.asked us < UInt32.size) :
    ∀ u ∈ us, ∀ id ∈ u.given, n < id.toNat ∧ id.toNat ≤ n + BreakpointUse.asked us := by
  induction run generalizing n with
  | nil r => exact List.forall_mem_nil _
  | @cons u rest r happens _ inductionHypothesis =>
      rw [BreakpointUse.asked] at few ⊢
      refine List.forall_mem_cons.mpr ⟨fun id member => ?_, fun v member id given => ?_⟩
      · obtain ⟨above, below⟩ := happens.given addressed numbered (by omega) id member
        exact ⟨above, by omega⟩
      · have later := inductionHypothesis (happens.addressed addressed)
          (happens.numbered addressed numbered) (by omega) v member id given
        omega

/-- After a history in which handles are handed out only once, the indices agree, and each handle
that is held is one of those. -/
theorem Runs.sound (run : Runs r us r') (indexed : r.Indexed) (filed : r.Filed)
    (numbered : r.Numbered n) (few : n + BreakpointUse.asked us ≤ UInt32.size)
    (distinct : (BreakpointUse.handedOut us).Nodup)
    (unheld : ∀ handle ∈ BreakpointUse.handedOut us, handle ∉ r.handles) :
    r'.Indexed ∧ r'.Filed ∧ r'.Numbered (n + BreakpointUse.asked us) ∧
      ∀ handle ∈ r'.handles, handle ∈ r.handles ∨ handle ∈ BreakpointUse.handedOut us := by
  induction run generalizing n with
  | nil r => exact ⟨indexed, filed, numbered, fun _ => .inl⟩
  | @cons u rest r happens _ inductionHypothesis =>
      rw [BreakpointUse.asked] at few ⊢
      rw [BreakpointUse.handedOut, List.flatMap_cons] at distinct unheld ⊢
      obtain ⟨first, later, apart⟩ := List.nodup_append.mp distinct
      obtain ⟨own, others⟩ := List.forall_mem_append.mp unheld
      have addressed := indexed.toAddressed
      have free : u.NumbersFree := numbered.numbersFree (by omega)
      obtain ⟨indexed', among⟩ := happens.handles indexed filed free first own
      have filed' := happens.filed addressed filed free
      have numbered' := happens.numbered addressed numbered
      have unheld' : ∀ handle ∈ BreakpointUse.handedOut rest, handle ∉ u.after.handles := by
        intro handle handed taken
        rcases among handle taken with old | now
        · exact others handle handed old
        · exact apart handle now handle handed rfl
      obtain ⟨indexed'', filed'', numbered'', among'⟩ :=
        inductionHypothesis indexed' filed' numbered' (by omega) later unheld'
      refine ⟨indexed'', filed'', by rwa [← Nat.add_assoc], fun handle taken => ?_⟩
      rw [List.mem_append, ← or_assoc]
      exact (among' handle taken).imp_left (among handle)

/-- Whatever was done with the breakpoints before and is done with them later: when those of a file
are set anew, they alone are replaced, with numbers above all that were given out and below all that
will be. -/
theorem replaces_in_history {earlier later : List BreakpointUse} {r r' last : BreakpointRegistry}
    {symbols : SymbolTable} {modules : List ModuleId} {file : String}
    {requests : List BreakpointRequest} {es : List (Exchange nativeEffect)}
    {infos : List BreakpointInfo} (run : Runs .empty earlier r)
    (played : (r.setBreakpoints symbols modules file requests).Plays es (infos, r'))
    (following : Runs r' later last)
    (few : BreakpointUse.asked earlier + requests.length + BreakpointUse.asked later <
      UInt32.size)
    (fresh : (BreakpointUse.handedOut earlier ++ handedOut (es.map .ofNative)).Nodup) :
    r.Replaces file requests es infos r' ∧
      (infos.map (·.id)).Pairwise (· < ·) ∧
      (∀ u ∈ earlier, ∀ old ∈ u.given, ∀ id ∈ infos.map (·.id), old < id) ∧
      ∀ u ∈ later, ∀ next ∈ u.given, ∀ id ∈ infos.map (·.id), id < next := by
  obtain ⟨distinct, distinct', apart⟩ := List.nodup_append.mp fresh
  obtain ⟨indexed, filed, numbered, among⟩ := run.sound .empty .empty .empty (by omega) distinct
    fun _ _ => List.not_mem_nil
  rw [Nat.zero_add] at numbered
  have unheld : ∀ handle ∈ handedOut (es.map .ofNative), handle ∉ r.handles := by
    intro handle handed taken
    rcases among handle taken with never | old
    · cases never
    · exact apart handle old handle handed rfl
  have free : r.NumbersFree file requests.length := numbered.free (by omega)
  obtain ⟨replaces, ids⟩ := replaces_of_plays indexed filed free distinct' unheld played
  rw [numbered.last] at ids
  have sets := sets_of_plays indexed.toAddressed played
  rw [ids]
  refine ⟨replaces, pairwise_numbersAfter (by omega), fun u member old given id new => ?_,
    fun u member next given id new => ?_⟩
  · have below := run.given .empty .empty (by omega) u member old given
    have above := toNat_of_mem_numbersAfter (by omega) new
    rw [UInt32.lt_iff_toNat_lt]
    omega
  · have above := following.given sets.addressed (numbered.sets sets) (by omega) u member next given
    have below := toNat_of_mem_numbersAfter (by omega) new
    rw [UInt32.lt_iff_toNat_lt]
    omega

section SameLine

/-- Two spellings of one file have a breakpoint each on the same line, and one of them is hit. -/
def spelledTwice : List BreakpointUse :=
  let symbols := SymbolTable.empty.add ⟨1⟩ (firstLine "A.cs")
  uses 1 .empty [
    ([⟨1⟩], symbols, .set "A.cs" [⟨1, none, none⟩]),
    ([⟨1⟩], symbols, .set "a.cs" [⟨1, none, some "==2"⟩]),
    ([⟨1⟩], symbols, .hit 2)]

/-- A target that refuses to switch anything off. -/
def neverOff (next : UInt32) : (call : NativeCall) → call.Reply × UInt32
  | .createBreakpoint .. => (.ok ⟨next⟩, next + 1)
  | _ => (.error (.protocol "refused"), next)

/-- The first spelling gets two breakpoints instead of its one. -/
def oneReplaced : List (Exchange nativeEffect) × UInt32 × List BreakpointInfo × BreakpointRegistry :=
  let symbols := SymbolTable.empty.add ⟨1⟩ (firstLine "A.cs")
  ((afterUses .empty spelledTwice).setBreakpoints symbols [⟨1⟩] "A.cs"
    [⟨1, none, none⟩, ⟨9, none, none⟩]).simulate neverOff 3

/-- Later the other one does. -/
def otherReplaced : List BreakpointUse :=
  uses 4 oneReplaced.2.2.2 [([], .empty, .set "a.cs" [⟨1, none, none⟩])]

theorem replaces_in_history_sameLine :
    Runs .empty spelledTwice (afterUses .empty spelledTwice) ∧
      Runs oneReplaced.2.2.2 otherReplaced (afterUses oneReplaced.2.2.2 otherReplaced) ∧
      switched oneReplaced.1 = [(⟨1⟩, false)] ∧
      oneReplaced.2.2.1.map (fun info => (info.id, info.verified)) = [(3, true), (4, false)] ∧
      otherReplaced.flatMap BreakpointUse.given = [5] ∧
      (afterUses .empty spelledTwice).Replaces "A.cs" [⟨1, none, none⟩, ⟨9, none, none⟩]
        oneReplaced.1 oneReplaced.2.2.1 oneReplaced.2.2.2 ∧
      (oneReplaced.2.2.2.byHandle? ⟨2⟩).map (·.hits) = some 1 := by
  have run : Runs .empty spelledTwice (afterUses .empty spelledTwice) := runs_uses 1 .empty _
  have following : Runs oneReplaced.2.2.2 otherReplaced
      (afterUses oneReplaced.2.2.2 otherReplaced) := runs_uses 4 _ _
  have played := Program.plays_simulate neverOff
    ((afterUses .empty spelledTwice).setBreakpoints
      (SymbolTable.empty.add ⟨1⟩ (firstLine "A.cs")) [⟨1⟩] "A.cs"
      [⟨1, none, none⟩, ⟨9, none, none⟩]) 3
  have replaces := (replaces_in_history run played following (by decide +kernel)
    (by decide +kernel)).1
  exact ⟨run, following, by decide +kernel, by decide +kernel, by decide +kernel, replaces,
    by decide +kernel⟩

end SameLine

end BreakpointRegistry

end ManagedDebugger
