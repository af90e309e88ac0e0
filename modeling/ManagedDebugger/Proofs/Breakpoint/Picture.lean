import ManagedDebugger.Breakpoint.Registry
import ManagedDebugger.Proofs.Program.Transcript

/-!
# What the front end knows of breakpoints

The front end keeps the last status that it was told of each breakpoint. Every operation on the
breakpoints hands out statuses, and a front end that learns them right after the operation knows
the status of each breakpoint again, whatever the target replied on the way.
-/

namespace ManagedDebugger

/-- The last status of each breakpoint that the front end was told. -/
abbrev Picture := Keyed UInt32 BreakpointInfo

namespace Picture

/-- Takes in statuses, the latest one last. -/
def learn (p : Picture) (infos : List BreakpointInfo) : Picture :=
  infos.foldl (fun p info => p.put info.id info) p

@[simp]
theorem learn_nil (p : Picture) : p.learn [] = p := rfl

theorem learn_append (p : Picture) (first second : List BreakpointInfo) :
    p.learn (first ++ second) = (p.learn first).learn second :=
  List.foldl_append

/-- Every breakpoint there is has the status that the front end was told last. -/
def Shows (p : Picture) (r : BreakpointRegistry) : Prop :=
  ∀ id b, r.get? id = some b → p.get? id = some b.info

theorem shows_empty (p : Picture) : p.Shows .empty := nofun

/-- A breakpoint is put in, or changed, and the front end is told of it. -/
theorem Shows.put {p : Picture} {r r' : BreakpointRegistry} {b : Breakpoint} (shown : p.Shows r)
    (changed : r'.breakpoints = r.breakpoints.put b.id b) :
    Shows (p.put b.id b.info) r' := by
  intro id found here
  rw [BreakpointRegistry.get?, changed, Keyed.get?_put] at here
  rw [Keyed.get?_put]
  split
  · rename_i same
    rw [if_pos same] at here
    cases here
    rfl
  · rename_i other
    rw [if_neg other] at here
    exact shown id found here

end Picture

namespace BreakpointRegistry

/-- Every breakpoint is kept under its own id. -/
def Named (r : BreakpointRegistry) : Prop := ∀ id b, r.get? id = some b → b.id = id

theorem named_empty : Named .empty := nofun

theorem Named.put {r r' : BreakpointRegistry} {b : Breakpoint} (named : r.Named)
    (changed : r'.breakpoints = r.breakpoints.put b.id b) : r'.Named := by
  intro id found here
  rw [get?, changed, Keyed.get?_put] at here
  split at here
  · rename_i same
    cases here
    exact same
  · exact named id found here

/-- Every breakpoint of the other registry is in this one, though perhaps with another status. -/
def Knows (r r' : BreakpointRegistry) : Prop :=
  ∀ id b', r'.get? id = some b' → ∃ b, r.get? id = some b

theorem Knows.refl (r : BreakpointRegistry) : r.Knows r := fun _ b here => ⟨b, here⟩

theorem Knows.trans {r r' r'' : BreakpointRegistry} (first : r.Knows r') (second : r'.Knows r'') :
    r.Knows r'' := by
  intro id b'' here
  obtain ⟨b', there⟩ := second id b'' here
  exact first id b' there

/-- Some statuses are all that the front end has to be told of what became of the breakpoints. -/
structure Tells (r : BreakpointRegistry) (infos : List BreakpointInfo) (r' : BreakpointRegistry) :
    Prop where
  named : r.Named → r'.Named
  shown : r.Named → ∀ p : Picture, p.Shows r → (p.learn infos).Shows r'

namespace Tells

variable {r r' r'' : BreakpointRegistry}

theorem refl (r : BreakpointRegistry) : r.Tells [] r := ⟨id, fun _ _ => id⟩

theorem trans {first second : List BreakpointInfo} (left : r.Tells first r')
    (right : r'.Tells second r'') : r.Tells (first ++ second) r'' where
  named := fun named => right.named (left.named named)
  shown := by
    intro named p shown
    rw [Picture.learn_append]
    exact right.shown (left.named named) _ (left.shown named p shown)

/-- A breakpoint is put in, or changed. -/
theorem put {b : Breakpoint} (changed : r'.breakpoints = r.breakpoints.put b.id b) :
    r.Tells [b.info] r' :=
  ⟨fun named => named.put changed, fun _ _ shown => shown.put changed⟩

end Tells

variable {r : BreakpointRegistry}

/-- What a try to bind a breakpoint leaves as it was. -/
structure Tried (r : BreakpointRegistry) (id : UInt32) (found : Bool × BreakpointRegistry) :
    Prop where
  untried : found.1 = false → found.2 = r
  named : found.2.Named
  others : ∀ other, other ≠ id → found.2.get? other = r.get? other
  known : r.Knows found.2

namespace Tried

theorem untouched (named : r.Named) (id : UInt32) : r.Tried id (false, r) :=
  ⟨fun _ => rfl, named, fun _ _ => rfl, .refl r⟩

theorem rebound (named : r.Named) {id : UInt32} {b : Breakpoint} (here : r.get? id = some b)
    (binding : Binding) : r.Tried id (true, r.rebind b binding) := by
  have own : b.id = id := named id b here
  have found (other : UInt32) : (r.rebind b binding).get? other =
      if id = other then some { b with binding } else r.get? other := by
    rw [← own]
    exact Keyed.get?_put _ _ _ _
  refine ⟨nofun, named.put (b := { b with binding }) rfl, fun other different => ?_, ?_⟩
  · rw [found, if_neg (Ne.symm different)]
  · intro other b' there
    rw [found] at there
    split at there
    · rename_i same
      subst same
      exact ⟨b, here⟩
    · exact ⟨b', there⟩

end Tried

theorem returns_tryBind (symbols : SymbolTable) (modules : List ModuleId) (named : r.Named)
    (id : UInt32) : (r.tryBind symbols modules id).Returns (r.Tried id) := by
  unfold tryBind
  split
  · exact Program.returns_done (.untouched named id)
  · rename_i b here
    split
    · exact Program.returns_done (.untouched named id)
    · refine (Program.returns_trivial _).bind fun created _ => ?_
      cases created with
      | ok handle => exact Program.returns_done (.rebound named here _)
      | error e => exact Program.returns_done (.rebound named here _)

end BreakpointRegistry

/-- Some breakpoints are new, and what became of them is yet to be told. -/
def Picture.ShowsBut (p : Picture) (awaited : List UInt32) (r : BreakpointRegistry) : Prop :=
  ∀ id b, r.get? id = some b → id ∈ awaited ∨ p.get? id = some b.info

namespace Picture.ShowsBut

variable {p : Picture} {r r' : BreakpointRegistry}

theorem mono {fewer awaited : List UInt32} (shown : p.ShowsBut fewer r)
    (subset : fewer ⊆ awaited) : p.ShowsBut awaited r :=
  fun id b here => (shown id b here).imp_left fun member => subset member

theorem nil_iff : p.ShowsBut [] r ↔ p.Shows r := by
  simp [ShowsBut, Shows]

/-- One breakpoint may have changed, and the front end is told what it is now. -/
theorem tell {id : UInt32} {rest : List UInt32} (shown : p.ShowsBut (id :: rest) r)
    (named : r'.Named) (others : ∀ other, other ≠ id → r'.get? other = r.get? other) :
    (p.learn ((r'.get? id).map Breakpoint.info).toList).ShowsBut rest r' := by
  intro other b here
  by_cases same : other = id
  · subst same
    have own : b.info.id = other := named other b here
    refine .inr ?_
    rw [here, ← own]
    exact (Keyed.get?_put _ _ _ _).trans (if_pos rfl)
  · have kept : (p.learn ((r'.get? id).map Breakpoint.info).toList).get? other = p.get? other := by
      cases changed : r'.get? id with
      | none => rfl
      | some b' =>
          have own : b'.info.id ≠ other := fun agree => same (agree ▸ named id b' changed)
          exact (Keyed.get?_put _ _ _ _).trans (if_neg own)
    rw [kept]
    rw [others other same] at here
    exact (shown other b here).imp_left (List.mem_of_ne_of_mem same)

end Picture.ShowsBut

namespace BreakpointRegistry

variable {r : BreakpointRegistry}

/-- The breakpoints to try that are reported even if nothing comes of it. -/
def awaited (report : Bool → Bool) (ids : List UInt32) : List UInt32 :=
  if report false then ids else []

/-- What is reported makes up for all that was changed, and for all that was awaited. -/
theorem returns_bindAll (symbols : SymbolTable) (modules : List ModuleId) (report : Bool → Bool)
    (reports : report true = true) (ids : List UInt32) (named : r.Named) :
    (r.bindAll symbols modules report ids).Returns fun found =>
      found.2.Named ∧ r.Knows found.2 ∧
        ∀ p : Picture, p.ShowsBut (awaited report ids) r → (p.learn found.1).Shows found.2 := by
  induction ids generalizing r with
  | nil =>
      refine Program.returns_done ⟨named, .refl r, fun p shown => ?_⟩
      refine Picture.ShowsBut.nil_iff.mp (shown.mono ?_)
      unfold awaited
      split <;> exact List.nil_subset _
  | cons id rest inductionHypothesis =>
      refine (returns_tryBind symbols modules named id).bind fun found tried => ?_
      refine (inductionHypothesis tried.named).bind fun told holds => ?_
      obtain ⟨namedAfter, knownAfter, shownAfter⟩ := holds
      refine Program.returns_done ⟨namedAfter, tried.known.trans knownAfter, fun p shown => ?_⟩
      rw [Picture.learn_append]
      refine shownAfter _ ?_
      cases told : report found.1 with
      | true =>
          refine Picture.ShowsBut.tell (shown.mono ?_) tried.named tried.others
          unfold awaited
          split
          · exact List.Subset.refl _
          · exact List.nil_subset _
      | false =>
          -- Only what was not tried goes unreported, and then nothing is awaited either.
          have untried : found.1 = false := by
            cases flag : found.1 with
            | true => rw [flag, reports] at told; cases told
            | false => rfl
          rw [untried] at told
          rw [tried.untried untried]
          simp only [awaited, told, Bool.false_eq_true, if_false] at shown ⊢
          exact shown

/-- Every breakpoint of this registry is in the other one as it is. -/
def Within (r r' : BreakpointRegistry) : Prop := ∀ id b, r.get? id = some b → r'.get? id = some b

theorem Within.trans {r r' r'' : BreakpointRegistry} (first : r.Within r')
    (second : r'.Within r'') : r.Within r'' :=
  fun id b here => second id b (first id b here)

theorem Within.named {r r' : BreakpointRegistry} (within : r.Within r') (named : r'.Named) :
    r.Named :=
  fun id b here => named id b (within id b here)

theorem within_remove (r : BreakpointRegistry) (b : Breakpoint) : (r.remove b).Within r := by
  intro id c here
  have erased : (r.remove b).breakpoints = r.breakpoints.erase b.id := by
    unfold remove dropHandle
    split <;> rfl
  rw [get?, erased, Keyed.get?_erase] at here
  exact (Option.ite_none_left_eq_some.mp here).2

theorem returns_removeAll (ids : List UInt32) :
    (r.removeAll ids).Returns fun r' => r'.Within r := by
  induction ids generalizing r with
  | nil => exact Program.returns_done fun _ _ => id
  | cons id rest inductionHypothesis =>
      unfold removeAll
      split
      · exact inductionHypothesis
      · rename_i b here
        have next : ((r.remove b).removeAll rest).Returns fun r' => r'.Within r :=
          inductionHypothesis.mono fun r' within => within.trans (within_remove r b)
        dsimp only
        split
        · exact (Program.returns_trivial _).bind fun _ _ => next
        · exact next

theorem named_addAll (file : String) (requests : List BreakpointRequest) (named : r.Named) :
    (r.addAll file requests).2.Named := by
  induction requests generalizing r with
  | nil => exact named
  | cons request rest inductionHypothesis =>
      exact inductionHypothesis (named.put (b := .ofRequest (r.lastId + 1) file request) rfl)

/-- Every breakpoint is one of the new ones, or one of the old ones as it was. -/
theorem mem_or_get?_of_addAll (file : String) (requests : List BreakpointRequest) {id : UInt32}
    {b : Breakpoint} (here : (r.addAll file requests).2.get? id = some b) :
    id ∈ (r.addAll file requests).1 ∨ r.get? id = some b := by
  induction requests generalizing r with
  | nil => exact .inr here
  | cons request rest inductionHypothesis =>
      cases inductionHypothesis here with
      | inl member => exact .inl (List.mem_cons_of_mem _ member)
      | inr there =>
          have found := (Keyed.get?_put r.breakpoints (r.lastId + 1) id
            (.ofRequest (r.lastId + 1) file request)).symm.trans there
          split at found
          · rename_i same
            subst same
            exact .inl List.mem_cons_self
          · exact .inr found

theorem returns_setBreakpoints (symbols : SymbolTable) (modules : List ModuleId) (file : String)
    (requests : List BreakpointRequest) (named : r.Named) :
    (r.setBreakpoints symbols modules file requests).Returns fun found =>
      r.Tells found.1 found.2 := by
  refine (returns_removeAll _).bind fun r₁ (fewer : r₁.Within r) => ?_
  let r₂ := (r₁.addAll file requests).2
  let r₃ := { r₂ with byFile := r₂.byFile.put file (r₁.addAll file requests).1 }
  have named₃ : r₃.Named := named_addAll file requests (fewer.named named)
  refine (returns_bindAll symbols modules (fun _ => true) rfl (r := r₃) _ named₃).mono ?_
  intro found told
  obtain ⟨namedAfter, -, shownAfter⟩ := told
  refine ⟨fun _ => namedAfter, fun _ p shown => shownAfter p fun id b here => ?_⟩
  cases mem_or_get?_of_addAll file requests here with
  | inl member => exact .inl member
  | inr there => exact .inr (shown id b (fewer id b there))

/-- What a module that was loaded does to the breakpoints. -/
structure Loads (r : BreakpointRegistry) (infos : List BreakpointInfo) (r' : BreakpointRegistry) :
    Prop where
  tells : r.Tells infos r'
  known : r.Knows r'

theorem returns_moduleLoaded (symbols : SymbolTable) (module : ModuleId) (named : r.Named) :
    (r.moduleLoaded symbols module).Returns fun found => r.Loads found.1 found.2 := by
  refine (returns_bindAll symbols [module] _ rfl _ named).mono fun found told => ?_
  obtain ⟨namedAfter, known, shownAfter⟩ := told
  refine ⟨⟨fun _ => namedAfter, fun _ p shown => shownAfter p ?_⟩, known⟩
  exact Picture.ShowsBut.nil_iff.mpr shown

theorem tells_moduleUnloaded (module : ModuleId) (r : BreakpointRegistry) :
    r.Tells (r.moduleUnloaded module).1 (r.moduleUnloaded module).2 := by
  unfold moduleUnloaded
  generalize (r.breakpoints.values.filter (·.isIn module)).mergeSort _ = affected
  induction affected generalizing r with
  | nil => exact .refl r
  | cons b rest inductionHypothesis =>
      have freed : ((r.dropHandle b).rebind b .pending).breakpoints =
          r.breakpoints.put b.id { b with binding := .pending } := by
        unfold dropHandle
        split <;> rfl
      have first := Tells.put (b := { b with binding := .pending }) freed
      exact first.trans (inductionHypothesis _)

/-- A hit is counted, and that is no change of the status. -/
theorem tells_recordHit (id : UInt32) (r : BreakpointRegistry) :
    r.Tells [] (r.recordHit id).2 := by
  unfold recordHit
  split
  · exact .refl r
  · rename_i b here
    refine ⟨fun named => named.put (b := { b with hits := b.hits + 1 }) ?_, ?_⟩
    · rw [named id b here]
    · intro named p shown other c there
      obtain rfl := named id b here
      rw [get?, Keyed.get?_put] at there
      split at there
      · rename_i same
        cases there
        exact same ▸ shown b.id b here
      · exact shown other c there

end BreakpointRegistry

end ManagedDebugger
