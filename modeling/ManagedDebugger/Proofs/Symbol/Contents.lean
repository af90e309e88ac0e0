import Mathlib.Data.List.Basic
import Mathlib.Data.List.Nodup
import Mathlib.Data.List.Perm.Basic
import ManagedDebugger.Symbol.Table

/-!
# What a symbol table has of a module

The methods of a module are looked up by their tokens to find a place in the source, and gone
through one by one to find a place in the code. Both see the same: of several methods with one token
only the last, and of each method the points in the order of their offsets. Methods whose tokens
differ are gone through in the order in which they are listed.
-/

namespace ManagedDebugger

namespace Keyed

variable {κ α : Type} [DecidableEq κ]

theorem put_of_fresh {m : Keyed κ α} {key : κ} (fresh : key ∉ m.keys) (value : α) :
    m.put key value = m ++ [(key, value)] := by
  induction m with
  | nil => rfl
  | cons e rest inductionHypothesis =>
      obtain ⟨k, a⟩ := e
      simp only [keys, List.map_cons, List.mem_cons, not_or] at fresh
      rw [put, if_neg (Ne.symm fresh.1), inductionHypothesis fresh.2, List.cons_append]

theorem Distinct.mem_values_iff {m : Keyed κ α} (distinct : m.Distinct) {value : α} :
    value ∈ m.values ↔ ∃ key, m.get? key = some value := by
  constructor
  · intro member
    obtain ⟨⟨key, _⟩, entry, rfl⟩ := List.mem_map.mp member
    exact ⟨key, distinct.mem_iff.mp entry⟩
  · intro found
    obtain ⟨key, here⟩ := found
    exact List.mem_map.mpr ⟨(key, value), distinct.mem_iff.mpr here, rfl⟩

end Keyed

namespace ModuleSymbols

variable {s : ModuleSymbols} {m : MethodSymbols}

/-- The method that a token stands for. -/
def method? (s : ModuleSymbols) (token : Token) : Option MethodSymbols :=
  s.methods.reverse.find? fun m => m.token = token

/-- No token stands for two methods. -/
def DistinctTokens (s : ModuleSymbols) : Prop := (s.methods.map (·.token)).Nodup

instance (s : ModuleSymbols) : Decidable s.DistinctTokens :=
  inferInstanceAs (Decidable (s.methods.map (·.token)).Nodup)

theorem token_of_method? {token : Token} (found : s.method? token = some m) :
    m.token = token := by
  have own := List.find?_some found
  simpa using own

theorem DistinctTokens.eq_of_token {other : MethodSymbols} (distinct : s.DistinctTokens)
    (here : m ∈ s.methods) (there : other ∈ s.methods) (same : m.token = other.token) :
    m = other :=
  List.inj_on_of_nodup_map distinct here there same

theorem DistinctTokens.perm {other : ModuleSymbols} (distinct : s.DistinctTokens)
    (reordered : other.methods.Perm s.methods) : other.DistinctTokens :=
  (reordered.map _).nodup_iff.mpr distinct

end ModuleSymbols

/-- Where a breakpoint on a candidate goes. -/
def Candidate.placeIn (module : ModuleId) (c : Candidate) : ResolvedBreakpoint :=
  ⟨⟨module, c.token⟩, c.point.offset, c.point.startLine, c.point.endLine⟩

/-! ## The methods of a module that is loaded -/

namespace LoadedModule

variable {s : ModuleSymbols} {m : MethodSymbols}

theorem get?_ofSymbols (s : ModuleSymbols) (token : Token) :
    (ofSymbols s).methods.get? token = (s.method? token).map MethodSymbols.sorted := by
  unfold ofSymbols ModuleSymbols.method?
  rw [← List.foldr_reverse]
  induction s.methods.reverse with
  | nil => rfl
  | cons last others inductionHypothesis =>
      rw [List.foldr_cons, Keyed.get?_put, inductionHypothesis, List.find?_cons]
      by_cases own : last.token = token <;> simp [own]

theorem distinct_ofSymbols (s : ModuleSymbols) : (ofSymbols s).methods.Distinct := by
  unfold ofSymbols
  rw [← List.foldr_reverse]
  induction s.methods.reverse with
  | nil => exact Keyed.distinct_nil
  | cons last others inductionHypothesis => exact inductionHypothesis.put _ _

theorem mem_values_ofSymbols_iff : m ∈ (ofSymbols s).methods.values ↔
    ∃ listed, s.method? listed.token = some listed ∧ m = listed.sorted := by
  rw [(distinct_ofSymbols s).mem_values_iff]
  constructor
  · intro found
    obtain ⟨token, here⟩ := found
    rw [get?_ofSymbols] at here
    obtain ⟨listed, found, rfl⟩ := Option.map_eq_some_iff.mp here
    exact ⟨listed, by rw [ModuleSymbols.token_of_method? found, found], rfl⟩
  · intro found
    obtain ⟨listed, found, rfl⟩ := found
    exact ⟨listed.token, by rw [get?_ofSymbols, found]; rfl⟩

/-- Methods are gone through in the order in which they are listed. -/
theorem values_ofSymbols (distinct : s.DistinctTokens) :
    (ofSymbols s).methods.values = s.methods.map MethodSymbols.sorted := by
  have entries (ms : List MethodSymbols) (table : Keyed Token MethodSymbols)
      (distinct : (table.keys ++ ms.map (·.token)).Nodup) :
      (ms.foldl (fun table m => table.put m.token m.sorted) table).values =
        table.values ++ ms.map MethodSymbols.sorted := by
    induction ms generalizing table with
    | nil => simp
    | cons m rest inductionHypothesis =>
        have fresh : m.token ∉ table.keys := by
          intro present
          have apart := (List.nodup_append.mp distinct).2.2
          exact apart _ present _ (by simp) rfl
        rw [List.foldl_cons, Keyed.put_of_fresh fresh, inductionHypothesis]
        · simp [Keyed.values]
        · simpa [Keyed.keys] using distinct
  exact entries s.methods [] distinct

end LoadedModule

namespace SymbolTable

variable {t : SymbolTable} {module : ModuleId} {s : ModuleSymbols}

/-- These are the symbols that the module was loaded with. -/
def Holds (t : SymbolTable) (module : ModuleId) (s : ModuleSymbols) : Prop :=
  t.modules.get? module = some (.ofSymbols s)

theorem holds_add (t : SymbolTable) (module : ModuleId) (s : ModuleSymbols) :
    (t.add module s).Holds module s :=
  (Keyed.get?_put _ _ _ _).trans (if_pos rfl)

theorem Holds.method? (holds : t.Holds module s) (token : Token) :
    t.method? ⟨module, token⟩ = (s.method? token).map MethodSymbols.sorted := by
  rw [SymbolTable.method?, holds, Option.bind_some, LoadedModule.get?_ofSymbols]

theorem Holds.resolve? (holds : t.Holds module s) (file : String) (line : UInt32) :
    t.resolve? module file line =
      ((LoadedModule.ofSymbols s).resolve? file line).map (Candidate.placeIn module) := by
  unfold SymbolTable.resolve?
  rw [holds]
  cases found : (LoadedModule.ofSymbols s).resolve? file line with
  | none => simp [found]
  | some c => simp [found, Candidate.placeIn]

end SymbolTable

end ManagedDebugger
