import ManagedDebugger.Proofs.Breakpoint.Operation

/-!
# The indices of the breakpoints agree

A registry keeps its breakpoints under three indices: by id, by file, and by the handle of the
target. They say the same at all times, whatever the symbols are and whichever breakpoints the
target refuses, as long as the target hands out no handle that the registry still holds. Ids are
numbers of 32 bits that are handed out in turn, so the one thing that breaks the agreement is a
number that comes round again while an earlier breakpoint still has it. That takes more than
`2 ^ 32` requests.
-/

namespace ManagedDebugger

/-! ## Handles that are held -/

/-- The handles that are held after an exchange with a target, unless it hands out one of those
that were held. A handle that is to be deactivated is given up, even if the target fails to. -/
def heldAfter (held : List NativeBreakpointId) :
    Exchange nativeEffect → Option (List NativeBreakpointId)
  | ⟨.createBreakpoint _ _, .ok handle⟩ => if handle ∈ held then none else some (handle :: held)
  | ⟨.setBreakpointActive handle false, _⟩ => some (held.filter (· ≠ handle))
  | _ => some held

/-- A target that never hands out a handle that is held. -/
def Lending : Environment nativeEffect (List NativeBreakpointId) :=
  fun held x held' => heldAfter held x = some held'

theorem allows_lending_iff {held held' : List NativeBreakpointId}
    {es : List (Exchange nativeEffect)} :
    Lending.Allows held es held' ↔ es.foldlM heldAfter held = some held' := by
  induction es generalizing held with
  | nil => simp [eq_comm]
  | cons x rest inductionHypothesis =>
      simp only [Environment.allows_cons_iff, inductionHypothesis, List.foldlM_cons,
        Option.bind_eq_bind, Option.bind_eq_some_iff]
      rfl

namespace BreakpointRegistry

/-- A breakpoint is bound to a handle. -/
def Holds (r : BreakpointRegistry) (handle : NativeBreakpointId) (id : UInt32) : Prop :=
  ∃ b, r.get? id = some b ∧ b.binding.handle? = some handle

/-- The handles that breakpoints are bound to. -/
def handles (r : BreakpointRegistry) : List NativeBreakpointId :=
  r.breakpoints.values.filterMap (·.binding.handle?)

/-- Handles lead to the breakpoints that are bound to them, and nowhere else. -/
structure Indexed (r : BreakpointRegistry) : Prop extends r.Addressed where
  exact : ∀ handle id, r.byHandle.get? handle = some id ↔ r.Holds handle id

variable {r r' : BreakpointRegistry} {handle : NativeBreakpointId} {id : UInt32} {b : Breakpoint}

theorem holds_remove :
    (r.remove b).Holds handle id ↔ b.id ≠ id ∧ r.Holds handle id := by
  simp only [Holds, get?_remove]
  by_cases own : b.id = id
  · simp [own]
  · simp [own]

theorem holds_rebind (binding : Binding) : (r.rebind b binding).Holds handle id ↔
    if b.id = id then binding.handle? = some handle else r.Holds handle id := by
  simp only [Holds, get?_rebind]
  by_cases own : b.id = id
  · simp [own]
  · simp [own]

theorem holds_dropHandle : (r.dropHandle b).Holds handle id ↔ r.Holds handle id := by
  simp [Holds]

theorem Addressed.mem_handles (addressed : r.Addressed) (holds : r.Holds handle id) :
    handle ∈ r.handles := by
  obtain ⟨b, here, held⟩ := holds
  obtain rfl := addressed.named id b here
  exact List.mem_filterMap.mpr ⟨b, addressed.mem_values_iff.mpr here, held⟩

namespace Indexed

theorem empty : Indexed .empty :=
  ⟨.empty, fun _ _ => ⟨nofun, fun ⟨_, here, _⟩ => nomatch here⟩⟩

theorem unshared (indexed : r.Indexed) {other : UInt32} (holds : r.Holds handle id)
    (again : r.Holds handle other) : id = other :=
  Option.some.inj (((indexed.exact handle id).mpr holds).symm.trans
    ((indexed.exact handle other).mpr again))

theorem congr (indexed : r.Indexed) (addressed : r'.Addressed)
    (byHandle : r'.byHandle = r.byHandle)
    (same : ∀ handle id, r'.Holds handle id ↔ r.Holds handle id) : r'.Indexed := by
  refine ⟨addressed, fun handle id => ?_⟩
  rw [byHandle, same]
  exact indexed.exact handle id

theorem remove (indexed : r.Indexed) (here : r.get? b.id = some b) : (r.remove b).Indexed := by
  refine ⟨indexed.toAddressed.remove b, fun handle id => ?_⟩
  rw [byHandle_remove, holds_remove]
  by_cases own : b.binding.handle? = some handle
  · rw [if_pos own]
    refine ⟨nofun, fun ⟨different, holds⟩ => ?_⟩
    exact absurd (indexed.unshared ⟨b, here, own⟩ holds) different
  · rw [if_neg own, indexed.exact]
    refine ⟨fun holds => ⟨fun same => ?_, holds⟩, fun ⟨_, holds⟩ => holds⟩
    obtain ⟨c, there, held⟩ := holds
    rw [← same, here] at there
    cases there
    exact own held

/-- A breakpoint gives up its handle, and may get one that none has. -/
theorem move (indexed : r.Indexed) (here : r.get? b.id = some b) (binding : Binding)
    (free : ∀ handle, binding.handle? = some handle → ∀ id, ¬ r.Holds handle id) :
    ((r.dropHandle b).rebind b binding).Indexed := by
  have addressed : ((r.dropHandle b).rebind b binding).Addressed :=
    indexed.toAddressed.put (b := { b with binding }) (by simp [rebind])
  refine ⟨addressed, fun handle id => ?_⟩
  rw [byHandle_rebind, byHandle_dropHandle, holds_rebind, holds_dropHandle]
  -- A handle is the one that is got, the one that is given up, or that of another breakpoint.
  by_cases new : binding.handle? = some handle
  · by_cases own : b.id = id
    · simp [new, own]
    · simp [new, own, free handle new id]
  · by_cases old : b.binding.handle? = some handle
    · by_cases own : b.id = id
      · simp [new, old, own]
      · have unheld : ¬ r.Holds handle id := fun holds =>
          own (indexed.unshared ⟨b, here, old⟩ holds)
        simp [new, old, own, unheld]
    · by_cases own : b.id = id
      · have unheld : ¬ r.Holds handle id := by
          intro holds
          obtain ⟨c, there, held⟩ := holds
          rw [← own, here] at there
          cases there
          exact old held
        simp [new, old, own, indexed.exact, unheld]
      · simp [new, old, own, indexed.exact]

end Indexed

/-- Every handle in use is among those that are held. -/
structure Accounted (held : List NativeBreakpointId) (r : BreakpointRegistry) : Prop where
  indexed : r.Indexed
  covered : ∀ handle id, r.Holds handle id → handle ∈ held

variable {held held' : List NativeBreakpointId} {es : List (Exchange nativeEffect)}
  {symbols : SymbolTable} {modules : List ModuleId}

theorem Accounted.remove_unheld (accounted : Accounted held r) (here : r.get? b.id = some b) :
    Accounted held (r.remove b) :=
  ⟨accounted.indexed.remove here, fun handle id holds =>
    accounted.covered handle id (holds_remove.mp holds).2⟩

theorem Accounted.remove_held (accounted : Accounted held r) (here : r.get? b.id = some b)
    (own : b.binding.handle? = some handle) :
    Accounted (held.filter (· ≠ handle)) (r.remove b) := by
  refine ⟨accounted.indexed.remove here, fun other id holds => ?_⟩
  obtain ⟨different, holds⟩ := holds_remove.mp holds
  refine List.mem_filter.mpr ⟨accounted.covered other id holds, ?_⟩
  refine decide_eq_true fun same => different ?_
  exact accounted.indexed.unshared ⟨b, here, own⟩ (same ▸ holds)

theorem Accounted.unbind (accounted : Accounted held r) (here : r.get? b.id = some b) :
    Accounted held (r.unbind b) := by
  refine ⟨accounted.indexed.move here .pending nofun, fun handle id holds => ?_⟩
  have holds := (holds_rebind .pending).mp holds
  split at holds
  · cases holds
  · exact accounted.covered handle id (holds_dropHandle.mp holds)

theorem Accounted.removeAll {ids : List UInt32} (accounted : Accounted held r)
    (played : (r.removeAll ids).Plays es r') (allowed : Lending.Allows held es held') :
    Accounted held' r' := by
  induction ids generalizing r es held with
  | nil =>
      obtain ⟨rfl, rfl⟩ := Program.plays_done_iff.mp played
      obtain rfl := Environment.allows_nil_iff.mp allowed
      exact accounted
  | cons id rest inductionHypothesis =>
      rcases plays_removeAll_cons played with ⟨-, others⟩ |
        ⟨b, here, ⟨-, others⟩ | ⟨handle, reply, second, own, rfl, others⟩⟩
      · exact inductionHypothesis accounted others allowed
      · obtain rfl := accounted.indexed.named id b here
        exact inductionHypothesis (accounted.remove_unheld here) others allowed
      · obtain rfl := accounted.indexed.named id b here
        obtain ⟨held₁, given, following⟩ := Environment.allows_cons_iff.mp allowed
        cases given
        exact inductionHypothesis (accounted.remove_held here own) others following

theorem Accounted.addAll {file : String} {requests : List BreakpointRequest}
    (accounted : Accounted held r)
    (unused : ∀ id ∈ numbersAfter r.lastId requests.length, r.get? id = none) :
    Accounted held (r.addAll file requests).2 := by
  obtain ⟨-, -, byHandle, addressed, added, kept⟩ :=
    adds_addAll accounted.indexed.toAddressed file requests
  have same (handle : NativeBreakpointId) (id : UInt32) :
      (r.addAll file requests).2.Holds handle id ↔ r.Holds handle id := by
    by_cases new : id ∈ numbersAfter r.lastId requests.length
    · obtain ⟨request, -, here⟩ := added id new
      simp [Holds, here, unused id new, Breakpoint.ofRequest, Binding.handle?]
    · simp only [Holds, kept id new]
  exact ⟨accounted.indexed.congr addressed byHandle same, fun handle id holds =>
    accounted.covered handle id ((same handle id).mp holds)⟩

theorem Tries.get?_of_ne {found : Bool × BreakpointRegistry} (named : r.Named)
    (tries : Tries symbols modules r id es found) {other : UInt32} (different : other ≠ id) :
    found.2.get? other = r.get? other := by
  cases tries with
  | unplaced nowhere => rfl
  | @asked b place here placed reply =>
      obtain rfl := named id b here
      rw [get?_rebind, if_neg (Ne.symm different)]

/-- A breakpoint that was bound to nothing is bound to a handle that is not held, or fails. -/
theorem Accounted.rebind (accounted : Accounted held r) (here : r.get? b.id = some b)
    (unheld : b.binding.handle? = none) (binding : Binding)
    (free : ∀ handle, binding.handle? = some handle → handle ∉ held) :
    Accounted (binding.handle?.toList ++ held) (r.rebind b binding) := by
  have moved := accounted.indexed.move here binding fun handle own id holds =>
    free handle own (accounted.covered handle id holds)
  rw [dropHandle_of_none unheld] at moved
  refine ⟨moved, fun handle id holds => ?_⟩
  have holds := (holds_rebind binding).mp holds
  split at holds
  · exact List.mem_append_left held (Option.mem_toList.mpr holds)
  · exact List.mem_append_right _ (accounted.covered handle id holds)

theorem Accounted.tries {found : Bool × BreakpointRegistry} (accounted : Accounted held r)
    (pending : ∀ b, r.get? id = some b → b.binding = .pending)
    (tries : Tries symbols modules r id es found) (allowed : Lending.Allows held es held') :
    Accounted held' found.2 := by
  cases tries with
  | unplaced nowhere =>
      obtain rfl := Environment.allows_nil_iff.mp allowed
      exact accounted
  | @asked b place here placed reply =>
      obtain rfl := accounted.indexed.named id b here
      have unheld : b.binding.handle? = none := by rw [pending b here]; rfl
      obtain ⟨held₁, given, ended⟩ := Environment.allows_cons_iff.mp allowed
      obtain rfl := Environment.allows_nil_iff.mp ended
      cases reply with
      | error e =>
          cases given
          exact accounted.rebind here unheld (.ofReply place (.error e)) nofun
      | ok handle =>
          obtain ⟨free, same⟩ := Option.ite_none_left_eq_some.mp given
          obtain rfl := Option.some.inj same
          refine accounted.rebind here unheld (.ofReply place (.ok handle)) fun own bound => ?_
          cases bound
          exact free

theorem Accounted.bindAll {report : Bool → Bool} {ids : List UInt32}
    {found : List BreakpointInfo × BreakpointRegistry} (accounted : Accounted held r)
    (distinct : ids.Nodup) (pending : ∀ id ∈ ids, ∀ b, r.get? id = some b → b.binding = .pending)
    (played : (r.bindAll symbols modules report ids).Plays es found)
    (allowed : Lending.Allows held es held') : Accounted held' found.2 := by
  induction ids generalizing r es held found with
  | nil =>
      obtain ⟨rfl, rfl⟩ := Program.plays_done_iff.mp played
      obtain rfl := Environment.allows_nil_iff.mp allowed
      exact accounted
  | cons id rest inductionHypothesis =>
      obtain ⟨first, tried, second, told, tries, others, rfl, same⟩ := plays_bindAll_cons played
      obtain ⟨held₁, own, following⟩ := Environment.allows_append_iff.mp allowed
      obtain ⟨fresh, distinct⟩ := List.nodup_cons.mp distinct
      have accounted₁ := accounted.tries (pending id List.mem_cons_self) tries own
      rw [same]
      refine inductionHypothesis accounted₁ distinct ?_ others following
      intro other member b here
      have different : other ≠ id := fun same => fresh (same ▸ member)
      rw [tries.get?_of_ne accounted.indexed.named different] at here
      exact pending other (List.mem_cons_of_mem id member) b here

/-! ## Files -/

/-- Each breakpoint is listed once, under its own file, and nothing else is listed. -/
structure Filed (r : BreakpointRegistry) : Prop where
  nodup : ∀ file, (r.idsOf file).Nodup
  listed : ∀ file id, id ∈ r.idsOf file ↔ r.fileOf? id = some file

theorem Filed.empty : Filed .empty := ⟨fun _ => List.nodup_nil, fun _ _ => ⟨nofun, nofun⟩⟩

theorem Filed.congr (filed : r.Filed) (keeps : r.KeepsFiles r') : r'.Filed := by
  refine ⟨fun file => ?_, fun file id => ?_⟩
  · rw [idsOf, keeps.byFile]
    exact filed.nodup file
  · rw [idsOf, keeps.byFile, keeps.files]
    exact filed.listed file id

/-- The next numbers are all different, and those that still have a breakpoint have one that is
about to be replaced. -/
def NumbersFree (r : BreakpointRegistry) (file : String) (count : Nat) : Prop :=
  (numbersAfter r.lastId count).Nodup ∧
    ∀ id ∈ numbersAfter r.lastId count, ∀ b, r.get? id = some b → b.file = file

variable {file : String} {requests : List BreakpointRequest}

theorem Sets.filed (sets : Sets symbols modules r file requests r') (filed : r.Filed)
    (free : r.NumbersFree file requests.length) : r'.Filed := by
  obtain ⟨distinct, replaced⟩ := free
  have elsewhere {id : UInt32} (new : id ∈ numbersAfter r.lastId requests.length)
      {other : String} (there : r.fileOf? id = some other) : other = file := by
    obtain ⟨b, here, rfl⟩ := fileOf?_eq_some_iff.mp there
    exact replaced id new b here
  refine ⟨fun other => ?_, fun other id => ?_⟩
  · rw [sets.ids]
    split
    · exact distinct
    · exact filed.nodup other
  · rw [sets.ids, sets.files]
    by_cases new : id ∈ numbersAfter r.lastId requests.length
    · by_cases own : file = other
      · simp [own, new]
      · have unlisted : r.fileOf? id ≠ some other := fun there => own (elsewhere new there).symm
        simp [own, new, filed.listed, unlisted]
    · by_cases own : file = other
      · subst own
        simp [new, ← filed.listed]
      · by_cases old : id ∈ r.idsOf file
        · have there : r.fileOf? id = some file := (filed.listed file id).mp old
          simp [own, new, old, filed.listed, there]
        · simp [own, new, old, filed.listed]

/-- Numbers that come round again put one breakpoint in the place of another. -/
theorem Sets.numbersFree (sets : Sets symbols modules r file requests r') (filed : r.Filed)
    (filed' : r'.Filed) : r.NumbersFree file requests.length := by
  refine ⟨?_, fun id new b here => ?_⟩
  · have distinct := filed'.nodup file
    rwa [sets.ids, if_pos rfl] at distinct
  · refine Decidable.byContradiction fun different => ?_
    have there : id ∈ r.idsOf b.file :=
      (filed.listed b.file id).mpr (fileOf?_eq_some_iff.mpr ⟨b, here, rfl⟩)
    have still := sets.ids b.file
    rw [if_neg (Ne.symm different)] at still
    rw [← still, filed'.listed, sets.files, if_pos new] at there
    exact different (Option.some.inj there).symm

/-- Handles have nothing to do with files. -/
theorem Accounted.refile (accounted : Accounted held r) (byFile : Keyed String (List UInt32)) :
    Accounted held { r with byFile } :=
  ⟨⟨⟨accounted.indexed.distinct, accounted.indexed.named⟩, accounted.indexed.exact⟩,
    accounted.covered⟩

theorem Accounted.setBreakpoints {found : List BreakpointInfo × BreakpointRegistry}
    (accounted : Accounted held r) (filed : r.Filed)
    (free : r.NumbersFree file requests.length)
    (played : (r.setBreakpoints symbols modules file requests).Plays es found)
    (allowed : Lending.Allows held es held') : Accounted held' found.2 := by
  obtain ⟨first, emptied, second, rfl, removed, bound⟩ := plays_setBreakpoints played
  obtain ⟨held₁, allowed, following⟩ := Environment.allows_append_iff.mp allowed
  have cleared : Accounted held { r with byFile := r.byFile.erase file } := accounted.refile _
  have removes := removes_of_plays cleared.indexed.toAddressed removed
  have accounted₁ : Accounted held₁ emptied := cleared.removeAll removed allowed
  have last : emptied.lastId = r.lastId := removes.lastId
  rw [last] at bound
  have unused : ∀ id ∈ numbersAfter r.lastId requests.length, emptied.get? id = none := by
    intro id new
    rw [removes.get?]
    split
    · rfl
    · rename_i unlisted
      refine Option.eq_none_iff_forall_ne_some.mpr fun b here => unlisted ?_
      exact (filed.listed file id).mpr (fileOf?_eq_some_iff.mpr ⟨b, here, free.2 id new b here⟩)
  have accounted₂ : Accounted held₁ (emptied.addAll file requests).2 :=
    accounted₁.addAll (last ▸ unused)
  obtain ⟨-, -, -, addressed, added, -⟩ := adds_addAll accounted₁.indexed.toAddressed file requests
  rw [last] at added
  refine (accounted₂.refile _).bindAll free.1 (fun id new b here => ?_) bound following
  obtain ⟨request, -, there⟩ := added id new
  cases there.symm.trans here
  rfl

/-! ## All of it -/

/-- The three indices and the parts of each breakpoint say the same. -/
structure Consistent (r : BreakpointRegistry) : Prop where
  named : ∀ id b, r.get? id = some b → b.id = id
  /-- A breakpoint has a handle and a place exactly if it is bound. -/
  handle : ∀ id b, r.get? id = some b → (b.binding.handle?.isSome ↔ b.binding.isBound)
  place : ∀ id b, r.get? id = some b → (b.binding.place?.isSome ↔ b.binding.isBound)
  /-- It has no message exactly if it is bound. -/
  message : ∀ id b, r.get? id = some b → (b.binding.message? = none ↔ b.binding.isBound)
  byHandle : ∀ handle id, r.byHandle.get? handle = some id ↔
    ∃ b, r.get? id = some b ∧ b.binding.handle? = some handle
  unshared : ∀ id id' b b' handle, r.get? id = some b → r.get? id' = some b' →
    b.binding.handle? = some handle → b'.binding.handle? = some handle → id = id'
  resolves : ∀ handle b, r.byHandle? handle = some b ↔
    r.get? b.id = some b ∧ b.binding.handle? = some handle
  nodup : ∀ file ids, r.byFile.get? file = some ids → ids.Nodup
  disjoint : ∀ file file' ids ids', r.byFile.get? file = some ids →
    r.byFile.get? file' = some ids' → file ≠ file' → ∀ id ∈ ids, id ∉ ids'
  /-- What is listed for a file are the breakpoints of that file. -/
  listed : ∀ file id, (∃ ids, r.byFile.get? file = some ids ∧ id ∈ ids) ↔
    ∃ b, r.get? id = some b ∧ b.file = file

theorem mem_idsOf_iff : id ∈ r.idsOf file ↔ ∃ ids, r.byFile.get? file = some ids ∧ id ∈ ids := by
  rw [idsOf]
  cases r.byFile.get? file <;> simp

theorem Indexed.resolves (indexed : r.Indexed) : r.byHandle? handle = some b ↔
    r.get? b.id = some b ∧ b.binding.handle? = some handle := by
  constructor
  · intro found
    obtain ⟨id, entry, here⟩ := Option.bind_eq_some_iff.mp found
    obtain ⟨c, there, held⟩ := (indexed.exact handle id).mp entry
    cases there.symm.trans here
    obtain rfl := indexed.named id b here
    exact ⟨here, held⟩
  · intro holds
    exact Option.bind_eq_some_iff.mpr ⟨b.id, (indexed.exact handle b.id).mpr ⟨b, holds⟩, holds.1⟩

theorem consistent_of_indexed (indexed : r.Indexed) (filed : r.Filed) : r.Consistent where
  named := indexed.named
  handle := fun _ b _ => by cases b.binding <;> simp [Binding.handle?, Binding.isBound]
  place := fun _ b _ => by cases b.binding <;> simp [Binding.place?, Binding.isBound]
  message := fun _ b _ => by cases b.binding <;> simp [Binding.message?, Binding.isBound]
  byHandle := indexed.exact
  unshared := fun _ _ b b' _ here there held held' =>
    indexed.unshared ⟨b, here, held⟩ ⟨b', there, held'⟩
  resolves := fun _ _ => indexed.resolves
  nodup := by
    intro file ids listed
    have nodup := filed.nodup file
    rwa [idsOf, listed] at nodup
  disjoint := by
    intro file file' ids ids' listed listed' different id member member'
    have own := (filed.listed file id).mp (mem_idsOf_iff.mpr ⟨ids, listed, member⟩)
    have other := (filed.listed file' id).mp (mem_idsOf_iff.mpr ⟨ids', listed', member'⟩)
    exact different (Option.some.inj (own.symm.trans other))
  listed := fun file id => by
    rw [← mem_idsOf_iff, filed.listed, fileOf?_eq_some_iff]

theorem Consistent.filed (consistent : r.Consistent) : r.Filed where
  nodup := by
    intro file
    rw [idsOf]
    cases listed : r.byFile.get? file with
    | none => exact List.nodup_nil
    | some ids => exact consistent.nodup file ids listed
  listed := by
    intro file id
    rw [mem_idsOf_iff, fileOf?_eq_some_iff]
    exact consistent.listed file id

end BreakpointRegistry

namespace BreakpointUse

open BreakpointRegistry

variable {u : BreakpointUse}

/-- The target hands out no handle that the registry still holds. -/
def Lent (u : BreakpointUse) : Prop :=
  ∃ held, Lending.Allows u.before.handles u.exchanges held

instance (u : BreakpointUse) : Decidable u.Lent :=
  decidable_of_iff (u.exchanges.foldlM heldAfter u.before.handles).isSome (by
    simp only [Lent, allows_lending_iff, Option.isSome_iff_exists])

/-- No number is handed out that another breakpoint still has. -/
def NumbersFree (u : BreakpointUse) : Prop :=
  match u.command with
  | .set file requests => u.before.NumbersFree file requests.length
  | _ => True

theorem Happens.filed (happens : u.Happens) (addressed : u.before.Addressed)
    (filed : u.before.Filed) (free : u.NumbersFree) : u.after.Filed := by
  rcases happens.sets_or_keepsFiles addressed with ⟨file, requests, command, sets⟩ | ⟨-, keeps⟩
  · rw [NumbersFree, command] at free
    exact sets.filed filed free
  · exact filed.congr keeps

theorem Happens.accounted {held : List NativeBreakpointId} (happens : u.Happens)
    (allowed : Lending.Allows u.before.handles u.exchanges held) (indexed : u.before.Indexed)
    (filed : u.before.Filed) (free : u.NumbersFree) : Accounted held u.after := by
  obtain ⟨modules, symbols, command, before, exchanges, after⟩ := u
  have accounted : Accounted before.handles before :=
    ⟨indexed, fun _ _ holds => indexed.toAddressed.mem_handles holds⟩
  cases command with
  | set file requests =>
      obtain ⟨first, found, second, played, ended, rfl⟩ := Program.plays_bind_iff.mp happens
      obtain ⟨rfl, rfl⟩ := Program.plays_done_iff.mp ended
      rw [List.append_nil] at allowed
      exact accounted.setBreakpoints filed free played allowed
  | load module =>
      obtain ⟨first, found, second, played, ended, rfl⟩ := Program.plays_bind_iff.mp happens
      obtain ⟨rfl, rfl⟩ := Program.plays_done_iff.mp ended
      rw [List.append_nil] at allowed
      refine accounted.bindAll (nodup_pendingIds indexed.toAddressed) ?_ played allowed
      intro id pending b here
      obtain ⟨c, there, pending⟩ := (mem_pendingIds_iff indexed.toAddressed).mp pending
      cases here.symm.trans there
      exact pending
  | unload module =>
      obtain ⟨rfl, same⟩ := Program.plays_done_iff.mp happens
      obtain rfl : after = (before.moduleUnloaded module).2 := same
      obtain rfl := Environment.allows_nil_iff.mp allowed
      refine foldl_unbind (P := Accounted before.handles)
        (nodup_affected indexed.toAddressed module) ?_ ?_ accounted
      · exact fun b member => ((mem_affected_iff indexed.toAddressed).mp member).1
      · exact fun r b here accounted => accounted.unbind here
  | hit id =>
      obtain ⟨rfl, same⟩ := Program.plays_done_iff.mp happens
      obtain rfl : after = (before.recordHit id).2 := same
      obtain rfl := Environment.allows_nil_iff.mp allowed
      have same (handle : NativeBreakpointId) (other : UInt32) :
          (before.recordHit id).2.Holds handle other ↔ before.Holds handle other := by
        simp only [Holds, get?_recordHit]
        cases before.get? other with
        | none => simp
        | some b => by_cases own : other = id <;> simp [own]
      refine ⟨?_, fun handle other holds => ?_⟩
      · exact indexed.congr (indexed.toAddressed.recordHit id) (byHandle_recordHit before id) same
      · exact accounted.covered handle other ((same handle other).mp holds)

theorem Happens.indexed (happens : u.Happens) (lent : u.Lent) (indexed : u.before.Indexed)
    (filed : u.before.Filed) (free : u.NumbersFree) : u.after.Indexed := by
  obtain ⟨held, allowed⟩ := lent
  exact (happens.accounted allowed indexed filed free).indexed

theorem Happens.numbersFree (happens : u.Happens) (addressed : u.before.Addressed)
    (filed : u.before.Filed) (filed' : u.after.Filed) : u.NumbersFree := by
  have does := happens.does addressed
  unfold NumbersFree
  split
  · rename_i file requests command
    simp only [Does, command] at does
    exact does.numbersFree filed filed'
  · trivial

end BreakpointUse

/-! ## Numbers -/

namespace BreakpointRegistry

variable {r r' : BreakpointRegistry} {id : UInt32} {file : String}
  {requests : List BreakpointRequest} {symbols : SymbolTable} {modules : List ModuleId}

theorem eq_of_ofNat_eq {a b : Nat} (same : UInt32.ofNat a = UInt32.ofNat b) (le : a ≤ b)
    (near : b < a + UInt32.size) : a = b := by
  have same := congrArg UInt32.toNat same
  simp only [UInt32.toNat_ofNat'] at same
  unfold UInt32.size at near
  omega

theorem mem_numbersAfter {n count : Nat} (member : id ∈ numbersAfter (.ofNat n) count) :
    ∃ k, n < k ∧ k ≤ n + count ∧ id = .ofNat k := by
  induction count generalizing n with
  | zero => cases member
  | succ count inductionHypothesis =>
      have next : UInt32.ofNat n + 1 = .ofNat (n + 1) := (UInt32.ofNat_add n 1).symm
      rw [numbersAfter, next] at member
      cases List.mem_cons.mp member with
      | inl first => exact ⟨n + 1, by omega, by omega, first⟩
      | inr later =>
          obtain ⟨k, above, below, own⟩ := inductionHypothesis later
          exact ⟨k, by omega, by omega, own⟩

theorem nodup_numbersAfter {n count : Nat} (few : count ≤ UInt32.size) :
    (numbersAfter (.ofNat n) count).Nodup := by
  induction count generalizing n with
  | zero => exact List.nodup_nil
  | succ count inductionHypothesis =>
      have next : UInt32.ofNat n + 1 = .ofNat (n + 1) := (UInt32.ofNat_add n 1).symm
      rw [numbersAfter, next]
      refine List.nodup_cons.mpr ⟨fun again => ?_, inductionHypothesis (by omega)⟩
      obtain ⟨k, above, below, own⟩ := mem_numbersAfter again
      have same := eq_of_ofNat_eq own (by omega) (by omega)
      omega

/-- So many numbers have been handed out, and each breakpoint has one of them. -/
structure Numbered (r : BreakpointRegistry) (n : Nat) : Prop where
  last : r.lastId = .ofNat n
  among : ∀ id file, r.fileOf? id = some file → ∃ k, 0 < k ∧ k ≤ n ∧ id = .ofNat k

theorem Numbered.empty : Numbered .empty 0 := ⟨rfl, fun _ _ => nofun⟩

theorem Numbered.congr {n : Nat} (numbered : r.Numbered n) (keeps : r.KeepsFiles r') :
    r'.Numbered n :=
  ⟨keeps.lastId.trans numbered.last, fun id file here =>
    numbered.among id file (keeps.files id ▸ here)⟩

theorem Numbered.sets {n : Nat} (numbered : r.Numbered n)
    (sets : Sets symbols modules r file requests r') : r'.Numbered (n + requests.length) := by
  refine ⟨?_, fun id other here => ?_⟩
  · rw [sets.lastId, numbered.last, UInt32.ofNat_add]
  · rw [sets.files, numbered.last] at here
    split at here
    · rename_i new
      obtain ⟨k, above, below, own⟩ := mem_numbersAfter new
      exact ⟨k, by omega, below, own⟩
    · have before : r.fileOf? id = some other := (Option.ite_none_left_eq_some.mp here).2
      obtain ⟨k, positive, below, own⟩ := numbered.among id other before
      exact ⟨k, positive, by omega, own⟩

/-- No number comes round again before all of them have been handed out. -/
theorem Numbered.free {n count : Nat} (numbered : r.Numbered n) (few : n + count ≤ UInt32.size) :
    r.NumbersFree file count := by
  unfold NumbersFree
  rw [numbered.last]
  refine ⟨nodup_numbersAfter (by omega), fun id new b here => ?_⟩
  obtain ⟨k, above, below, rfl⟩ := mem_numbersAfter new
  obtain ⟨k', positive, old, own⟩ :=
    numbered.among _ b.file (fileOf?_eq_some_iff.mpr ⟨b, here, rfl⟩)
  have same := eq_of_ofNat_eq own.symm (by omega) (by omega)
  omega

end BreakpointRegistry

theorem BreakpointUse.Happens.numbered {u : BreakpointUse} {n : Nat} (happens : u.Happens)
    (addressed : u.before.Addressed) (numbered : u.before.Numbered n) :
    u.after.Numbered (n + u.command.asked) := by
  rcases happens.sets_or_keepsFiles addressed with
    ⟨file, requests, command, sets⟩ | ⟨nothing, keeps⟩
  · rw [command]
    exact numbered.sets sets
  · rw [nothing]
    exact numbered.congr keeps

/-- How many breakpoints some uses ask for in all. -/
def BreakpointUse.asked : List BreakpointUse → Nat
  | [] => 0
  | u :: rest => u.command.asked + asked rest

namespace BreakpointRegistry

variable {r r' : BreakpointRegistry} {us : List BreakpointUse}

theorem Runs.consistent_iff (run : Runs r us r')
    (lent : ∀ u ∈ us, u.Lent) (indexed : r.Indexed) (filed : r.Filed) :
    (∀ u ∈ us, u.after.Consistent) ↔ ∀ u ∈ us, u.NumbersFree := by
  induction run with
  | nil r => exact ⟨fun _ => nofun, fun _ => nofun⟩
  | @cons u rest r happens _ inductionHypothesis =>
      obtain ⟨own, others⟩ := List.forall_mem_cons.mp lent
      simp only [List.forall_mem_cons]
      -- Either way the first use keeps both indices, so the rest starts from a good registry.
      constructor
      · intro consistent
        obtain ⟨first, later⟩ := consistent
        have free := happens.numbersFree indexed.toAddressed filed first.filed
        have after := happens.indexed own indexed filed free
        exact ⟨free, (inductionHypothesis others after first.filed).mp later⟩
      · intro free
        obtain ⟨first, later⟩ := free
        have after := happens.indexed own indexed filed first
        have filed' := happens.filed indexed.toAddressed filed first
        exact ⟨consistent_of_indexed after filed',
          (inductionHypothesis others after filed').mpr later⟩

theorem Numbered.numbersFree {u : BreakpointUse} {n : Nat} (numbered : u.before.Numbered n)
    (few : n + u.command.asked ≤ UInt32.size) : u.NumbersFree := by
  unfold BreakpointUse.NumbersFree
  split
  · rename_i file requests command
    rw [command] at few
    exact numbered.free few
  · trivial

theorem Runs.numbersFree {n : Nat} (run : Runs r us r')
    (addressed : r.Addressed) (numbered : r.Numbered n)
    (few : n + BreakpointUse.asked us ≤ UInt32.size) : ∀ u ∈ us, u.NumbersFree := by
  induction run generalizing n with
  | nil r => exact List.forall_mem_nil _
  | @cons u rest r happens _ inductionHypothesis =>
      rw [BreakpointUse.asked] at few
      refine List.forall_mem_cons.mpr ⟨numbered.numbersFree (by omega), ?_⟩
      exact inductionHypothesis (happens.addressed addressed)
        (happens.numbered addressed numbered) (by omega)

/-- The indices agree after each use, as long as no number comes round again while a breakpoint
still has it, and so in any run with no more requests than there are numbers. -/
theorem consistent_of_run (run : Runs .empty us r) (lent : ∀ u ∈ us, u.Lent) :
    (BreakpointUse.asked us ≤ UInt32.size → ∀ u ∈ us, u.after.Consistent) ∧
      ((∀ u ∈ us, u.after.Consistent) ↔ ∀ u ∈ us, u.NumbersFree) := by
  have exactly := run.consistent_iff lent .empty .empty
  refine ⟨fun few => exactly.mpr ?_, exactly⟩
  exact run.numbersFree .empty .empty (by omega)

section Reloading

/-- One breakpoint is bound at once, and one of another file when its module is loaded. The first
module goes, and the other file gets two breakpoints instead of its one. -/
def reloading : List BreakpointUse :=
  let first := SymbolTable.empty.add ⟨1⟩ (firstLine "A.cs")
  let second := first.add ⟨2⟩ (firstLine "B.cs")
  uses 1 .empty [
    ([⟨1⟩], first, .set "A.cs" [⟨1, none, some "==2"⟩]),
    ([⟨1⟩], first, .set "B.cs" [⟨1, none, none⟩]),
    ([⟨1⟩, ⟨2⟩], second, .load ⟨2⟩),
    ([⟨1⟩, ⟨2⟩], second, .hit 1),
    ([⟨2⟩], second.remove ⟨1⟩, .unload ⟨1⟩),
    ([⟨2⟩], second.remove ⟨1⟩, .set "B.cs" [⟨1, none, none⟩, ⟨9, none, none⟩])]

theorem consistent_reloading :
    Runs .empty reloading (afterUses .empty reloading) ∧ (∀ u ∈ reloading, u.Lent) ∧
      (afterUses .empty reloading).handles = [⟨3⟩] ∧
      (∀ u ∈ reloading, u.NumbersFree) ∧ ∀ u ∈ reloading, u.after.Consistent := by
  have run : Runs .empty reloading (afterUses .empty reloading) := runs_uses 1 .empty _
  have lent : ∀ u ∈ reloading, u.Lent := by decide +kernel
  have consistent := (consistent_of_run run lent).1 (by decide +kernel)
  exact ⟨run, lent, by decide +kernel, (consistent_of_run run lent).2.mp consistent, consistent⟩

end Reloading

end BreakpointRegistry

end ManagedDebugger
