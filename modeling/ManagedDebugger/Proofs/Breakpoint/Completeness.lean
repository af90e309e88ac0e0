import ManagedDebugger.Proofs.Breakpoint.Operation

/-!
# Breakpoints that wait for nothing

A breakpoint is tried in every module that is loaded when it is set, and while it is pending in
every module that is loaded later. So it is pending only as long as no loaded module has a place for
it, with one exception: when the module that it is bound in is unloaded it goes back to pending, and
the other modules are not asked again. It then waits for its file to be set anew or for another
module to be loaded.
-/

namespace ManagedDebugger

/-- The modules that are loaded, and the symbols of them that are known. -/
structure Loaded where
  modules : List ModuleId
  symbols : SymbolTable

namespace Loaded

def none : Loaded := ⟨[], .empty⟩

/-- A module may come without symbols. -/
def load (L : Loaded) (m : ModuleId) : Option ModuleSymbols → Loaded
  | some s => ⟨L.modules ++ [m], L.symbols.add m s⟩
  | .none => ⟨L.modules ++ [m], L.symbols⟩

def unload (L : Loaded) (m : ModuleId) : Loaded :=
  ⟨L.modules.filter (· ≠ m), L.symbols.remove m⟩

theorem mem_load_iff {L : Loaded} {m other : ModuleId} (s : Option ModuleSymbols) :
    m ∈ (L.load other s).modules ↔ m ∈ L.modules ∨ m = other := by
  cases s <;> simp [load]

theorem mem_unload_iff {L : Loaded} {m other : ModuleId} :
    m ∈ (L.unload other).modules ↔ m ∈ L.modules ∧ m ≠ other := by
  simp [unload]

theorem resolve?_load {L : Loaded} {m other : ModuleId} (different : m ≠ other)
    (s : Option ModuleSymbols) (file : String) (line : UInt32) :
    (L.load other s).symbols.resolve? m file line = L.symbols.resolve? m file line := by
  cases s with
  | none => rfl
  | some s =>
      simp only [load, SymbolTable.resolve?, SymbolTable.add, Keyed.get?_put,
        if_neg (Ne.symm different)]

theorem resolve?_unload {L : Loaded} {m other : ModuleId} (different : m ≠ other)
    (file : String) (line : UInt32) :
    (L.unload other).symbols.resolve? m file line = L.symbols.resolve? m file line := by
  simp only [unload, SymbolTable.resolve?, SymbolTable.remove, Keyed.get?_erase,
    if_neg (Ne.symm different)]

/-- What is loaded while a use takes place, after what was loaded before it. -/
inductive Goes (L : Loaded) : BreakpointCommand → Loaded → Prop where
  | set (file : String) (requests : List BreakpointRequest) : Goes L (.set file requests) L
  | load (m : ModuleId) (s : Option ModuleSymbols) : Goes L (.load m) (L.load m s)
  | unload (m : ModuleId) : Goes L (.unload m) (L.unload m)
  | hit (id : UInt32) : Goes L (.hit id) L

end Loaded

namespace BreakpointUse

def loaded (u : BreakpointUse) : Loaded := ⟨u.modules, u.symbols⟩

end BreakpointUse

/-- Each use goes by the modules that are loaded at the time. -/
inductive Follows : Loaded → List BreakpointUse → Loaded → Prop where
  | nil (L : Loaded) : Follows L [] L
  | cons {L L' : Loaded} {u : BreakpointUse} {us : List BreakpointUse} :
      L.Goes u.command u.loaded → Follows u.loaded us L' → Follows L (u :: us) L'

/-- A breakpoint is pending although a module that is loaded has a place for it. -/
def Missed (L : Loaded) (r : BreakpointRegistry) (m : ModuleId) (id : UInt32) : Prop :=
  m ∈ L.modules ∧ ∃ b, r.get? id = some b ∧ b.binding = .pending ∧
    L.symbols.resolve? m b.file b.line ≠ none

namespace BreakpointUse

/-- The module that a breakpoint is bound in is unloaded, and one that has a place for it stays. -/
def Strands (u : BreakpointUse) (m : ModuleId) (id : UInt32) : Prop :=
  ∃ gone b, u.command = .unload gone ∧ m ∈ u.modules ∧ u.before.get? id = some b ∧
    b.isIn gone = true ∧ u.symbols.resolve? m b.file b.line ≠ none

/-- The file of a breakpoint is set anew, or a module is loaded that has a place for it. -/
def Retries (u : BreakpointUse) (id : UInt32) : Prop :=
  ∃ b, u.before.get? id = some b ∧ match u.command with
    | .set file _ => b.file = file
    | .load m => u.symbols.resolve? m b.file b.line ≠ none
    | .unload _ | .hit _ => False

end BreakpointUse

namespace BreakpointRegistry

/-- Every breakpoint is listed under its file. -/
def Listed (r : BreakpointRegistry) : Prop :=
  ∀ id file, r.fileOf? id = some file → id ∈ r.idsOf file

variable {r r' : BreakpointRegistry}

theorem Listed.empty : Listed .empty := nofun

theorem Listed.sets {symbols : SymbolTable} {modules : List ModuleId} {file : String}
    {requests : List BreakpointRequest} (listed : r.Listed)
    (sets : Sets symbols modules r file requests r') : r'.Listed := by
  intro id other here
  rw [sets.files] at here
  rw [sets.ids]
  split at here
  · rename_i new
    rw [if_pos (Option.some.inj here)]
    exact new
  · obtain ⟨unlisted, before⟩ := Option.ite_none_left_eq_some.mp here
    have member : id ∈ r.idsOf other := listed id other before
    have different : file ≠ other := fun same => unlisted (same ▸ member)
    rw [if_neg different]
    exact member

end BreakpointRegistry

open BreakpointRegistry

namespace BreakpointUse.Happens

variable {u : BreakpointUse} {L : Loaded} {m : ModuleId} {id : UInt32}

theorem listed (happens : u.Happens) (addressed : u.before.Addressed) (listed : u.before.Listed) :
    u.after.Listed := by
  rcases happens.sets_or_keepsFiles addressed with ⟨file, requests, -, sets⟩ | ⟨-, keeps⟩
  · exact listed.sets sets
  · intro id file here
    rw [keeps.files] at here
    rw [idsOf, keeps.byFile]
    exact listed id file here

/-- A use misses no breakpoint that was not missed before, unless it strands it. -/
theorem missed (happens : u.Happens) (addressed : u.before.Addressed)
    (listed : u.before.Listed) (goes : L.Goes u.command u.loaded)
    (missed : Missed u.loaded u.after m id) :
    Missed L u.before m id ∧ ¬ u.Retries id ∨ u.Strands m id := by
  have does := happens.does addressed
  obtain ⟨present, b, here, pending, resolved⟩ := missed
  -- What is loaded is named apart from the use, for `goes` to say command by command what it is.
  generalize loaded : u.loaded = L' at goes present resolved
  have modules : u.modules = L'.modules := congrArg Loaded.modules loaded
  have symbols : u.symbols = L'.symbols := congrArg Loaded.symbols loaded
  generalize asked : u.command = command at goes
  simp only [Does, asked] at does
  cases goes with
  | set file requests =>
      rw [symbols, modules] at does
      have unplaced := does.unplaced id b here pending
      split at unplaced
      · exact absurd (SymbolTable.place?_eq_none_iff.mp unplaced m present) resolved
      · obtain ⟨elsewhere, there⟩ := unplaced
        refine .inl ⟨⟨present, b, there, pending, resolved⟩, fun retries => ?_⟩
        obtain ⟨c, found, own⟩ := retries
        rw [asked] at own
        cases there.symm.trans found
        exact elsewhere (own ▸ listed id b.file (fileOf?_eq_some_iff.mpr ⟨b, there, rfl⟩))
  | load new s =>
      rw [symbols] at does
      obtain ⟨there, nowhere⟩ := does.unplaced id b here pending
      have untried := nowhere ((mem_pendingIds_iff addressed).mpr ⟨b, there, pending⟩)
      have unresolved := SymbolTable.place?_eq_none_iff.mp untried new List.mem_cons_self
      have different : m ≠ new := fun same => resolved (same ▸ unresolved)
      have before : m ∈ L.modules := ((Loaded.mem_load_iff s).mp present).resolve_right different
      rw [Loaded.resolve?_load different] at resolved
      refine .inl ⟨⟨before, b, there, pending, resolved⟩, fun retries => ?_⟩
      obtain ⟨c, found, placed⟩ := retries
      rw [asked, symbols] at placed
      cases there.symm.trans found
      exact placed unresolved
  | unload gone =>
      obtain ⟨before, different⟩ := Loaded.mem_unload_iff.mp present
      rw [does.get?] at here
      obtain ⟨c, there, same⟩ := Option.map_eq_some_iff.mp here
      split at same
      · rename_i inside
        subst same
        exact .inr ⟨gone, c, asked, modules ▸ present, there, inside, symbols ▸ resolved⟩
      · subst same
        rw [Loaded.resolve?_unload different] at resolved
        refine .inl ⟨⟨before, c, there, pending, resolved⟩, fun retries => ?_⟩
        obtain ⟨_, _, never⟩ := retries
        simp only [asked] at never
  | hit other =>
      rw [does, get?_recordHit] at here
      obtain ⟨c, there, same⟩ := Option.map_eq_some_iff.mp here
      refine .inl ⟨⟨present, c, there, ?_⟩, fun retries => ?_⟩
      · split at same
        · subst same
          exact ⟨pending, resolved⟩
        · subst same
          exact ⟨pending, resolved⟩
      · obtain ⟨_, _, never⟩ := retries
        simp only [asked] at never

/-- A breakpoint that is stranded is missed from then on. -/
theorem missed_of_strands (happens : u.Happens) (addressed : u.before.Addressed)
    (strands : u.Strands m id) : Missed u.loaded u.after m id := by
  obtain ⟨gone, b, asked, present, here, inside, resolved⟩ := strands
  have does := happens.does addressed
  simp only [Does, asked] at does
  refine ⟨present, { b with binding := .pending }, ?_, rfl, resolved⟩
  rw [does.get?, here, Option.map_some, if_pos inside]

end BreakpointUse.Happens

namespace BreakpointRegistry

variable {r r' : BreakpointRegistry} {us : List BreakpointUse} {L L' : Loaded} {m : ModuleId}
  {id : UInt32}

theorem Runs.missed (run : Runs r us r') (follows : Follows L us L') (addressed : r.Addressed)
    (listed : r.Listed) (missed : Missed L' r' m id) :
    (Missed L r m id ∧ ∀ v ∈ us, ¬ v.Retries id) ∨
    ∃ earlier u later, us = earlier ++ u :: later ∧ u.Strands m id ∧
      ∀ v ∈ later, ¬ v.Retries id := by
  induction run generalizing L with
  | nil r =>
      cases follows
      exact .inl ⟨missed, List.forall_mem_nil _⟩
  | @cons u rest r happens _ inductionHypothesis =>
      cases follows with
      | cons goes follows =>
          rcases inductionHypothesis follows (happens.addressed addressed)
            (happens.listed addressed listed) missed with ⟨missed, untried⟩ |
              ⟨earlier, v, later, rfl, strands, untried⟩
          · rcases happens.missed addressed listed goes missed with ⟨missed, untouched⟩ | strands
            · exact .inl ⟨missed, List.forall_mem_cons.mpr ⟨untouched, untried⟩⟩
            · exact .inr ⟨[], u, rest, rfl, strands, untried⟩
          · exact .inr ⟨u :: earlier, v, later, rfl, strands, untried⟩

theorem Runs.happens_addressed (run : Runs r us r') (addressed : r.Addressed) :
    ∀ u ∈ us, u.Happens ∧ u.before.Addressed := by
  induction run with
  | nil r => exact List.forall_mem_nil _
  | cons happens _ inductionHypothesis =>
      exact List.forall_mem_cons.mpr
        ⟨⟨happens, addressed⟩, inductionHypothesis (happens.addressed addressed)⟩

/-- A breakpoint waits for a module that is loaded only if it was stranded, and neither was its file
set since nor a module loaded that has a place for it. And each one that is stranded does wait. -/
theorem stranded_of_missed (run : Runs .empty us r) (follows : Follows .none us L) :
    (∀ m id, Missed L r m id → ∃ earlier u later, us = earlier ++ u :: later ∧
      u.Strands m id ∧ ∀ v ∈ later, ¬ v.Retries id) ∧
    ∀ u ∈ us, ∀ m id, u.Strands m id → Missed u.loaded u.after m id := by
  refine ⟨fun m id missed => ?_, fun u member m id strands => ?_⟩
  · refine (run.missed follows .empty .empty missed).resolve_left fun before => ?_
    obtain ⟨⟨absent, -⟩, -⟩ := before
    cases absent
  · obtain ⟨happens, addressed⟩ := run.happens_addressed .empty u member
    exact happens.missed_of_strands addressed strands

section TwoModules

/-- A breakpoint is bound in the first of two modules that have a place for it, which then goes. -/
def strandedUses : List BreakpointUse :=
  let first := Loaded.none.load ⟨1⟩ (firstLine "A.cs")
  let both := first.load ⟨2⟩ (firstLine "A.cs")
  uses 1 .empty [
    (first.modules, first.symbols, .load ⟨1⟩),
    (both.modules, both.symbols, .load ⟨2⟩),
    (both.modules, both.symbols, .set "A.cs" [⟨1, none, none⟩]),
    ((both.unload ⟨1⟩).modules, (both.unload ⟨1⟩).symbols, .unload ⟨1⟩)]

def secondModule : Loaded :=
  ((Loaded.none.load ⟨1⟩ (firstLine "A.cs")).load ⟨2⟩ (firstLine "A.cs")).unload ⟨1⟩

theorem follows_strandedUses : Follows .none strandedUses secondModule :=
  .cons (.load ⟨1⟩ (firstLine "A.cs")) (.cons (.load ⟨2⟩ (firstLine "A.cs"))
    (.cons (.set "A.cs" [⟨1, none, none⟩]) (.cons (.unload ⟨1⟩) (.nil _))))

/-- The breakpoint on the first line of the file. -/
def strandedBreakpoint : Breakpoint := ⟨1, "A.cs", 1, none, none, 0, .pending⟩

/-- The second module has a place for the breakpoint, and is not asked. -/
theorem missed_secondModule :
    Runs .empty strandedUses (afterUses .empty strandedUses) ∧
      Follows .none strandedUses secondModule ∧
      Missed secondModule (afterUses .empty strandedUses) ⟨2⟩ 1 := by
  refine ⟨runs_uses 1 .empty _, follows_strandedUses, ?_⟩
  exact ⟨by decide, strandedBreakpoint, by decide +kernel, rfl, by decide +kernel⟩

theorem stranded_secondModule :
    Runs .empty strandedUses (afterUses .empty strandedUses) ∧
      Follows .none strandedUses secondModule ∧
      ∃ earlier u later, strandedUses = earlier ++ u :: later ∧ u.Strands ⟨2⟩ 1 ∧
        ∀ v ∈ later, ¬ v.Retries 1 := by
  have run : Runs .empty strandedUses (afterUses .empty strandedUses) := runs_uses 1 .empty _
  refine ⟨run, follows_strandedUses, (stranded_of_missed run follows_strandedUses).1 ⟨2⟩ 1 ?_⟩
  exact ⟨by decide, strandedBreakpoint, by decide +kernel, rfl, by decide +kernel⟩

end TwoModules

end BreakpointRegistry

end ManagedDebugger
