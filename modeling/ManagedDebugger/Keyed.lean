/-!
Finite maps as lists of pairs, in the order in which their keys first came.
-/

namespace ManagedDebugger

/-- At most one entry of a key counts: the first. -/
abbrev Keyed (κ α : Type) := List (κ × α)

namespace Keyed

variable {κ α : Type} [DecidableEq κ]

def get? : Keyed κ α → κ → Option α
  | [], _ => none
  | (k, a) :: rest, key => if k = key then some a else get? rest key

/-- A new key goes to the end, a present one keeps its place. -/
def put : Keyed κ α → κ → α → Keyed κ α
  | [], key, value => [(key, value)]
  | (k, a) :: rest, key, value =>
    if k = key then (key, value) :: rest else (k, a) :: put rest key value

def erase (m : Keyed κ α) (key : κ) : Keyed κ α := m.filter fun e => decide (e.1 ≠ key)

def keys (m : Keyed κ α) : List κ := m.map (·.1)

def values (m : Keyed κ α) : List α := m.map (·.2)

@[simp] theorem get?_nil (key : κ) : get? ([] : Keyed κ α) key = none := rfl

theorem get?_put (m : Keyed κ α) (key other : κ) (value : α) :
    get? (put m key value) other = if key = other then some value else get? m other := by
  induction m with
  | nil => simp [put, get?]
  | cons e rest ih =>
    obtain ⟨k, a⟩ := e
    by_cases h : k = key
    · subst h
      simp only [put, get?, if_true]
      split <;> rfl
    · simp only [put, get?, h, if_false, ih]
      by_cases o : k = other
      · subst o
        simp [Ne.symm h]
      · simp [o]

theorem get?_erase (m : Keyed κ α) (key other : κ) :
    get? (erase m key) other = if key = other then none else get? m other := by
  induction m with
  | nil => simp [erase]
  | cons e rest ih =>
    obtain ⟨k, a⟩ := e
    simp only [erase] at ih
    by_cases h : k = key
    · subst h
      by_cases o : k = other
      · simpa [erase, o] using ih
      · simpa [erase, get?, o] using ih
    · by_cases o : k = other
      · subst o
        simp [erase, get?, h, Ne.symm h]
      · simpa [erase, get?, h, o] using ih

/-- No key has two entries. -/
def Distinct (m : Keyed κ α) : Prop := m.keys.Nodup

omit [DecidableEq κ] in
theorem distinct_nil : Distinct ([] : Keyed κ α) := List.nodup_nil

theorem mem_keys_put (m : Keyed κ α) (key other : κ) (value : α) :
    other ∈ (m.put key value).keys ↔ other = key ∨ other ∈ m.keys := by
  induction m with
  | nil => simp [put, keys]
  | cons e rest ih =>
    obtain ⟨k, a⟩ := e
    simp only [keys] at ih
    by_cases h : k = key
    · subst h
      simp [put, keys]
    · simp only [put, h, if_false, keys, List.map_cons, List.mem_cons, ih]
      exact or_left_comm

theorem Distinct.put {m : Keyed κ α} (distinct : m.Distinct) (key : κ) (value : α) :
    (m.put key value).Distinct := by
  induction m with
  | nil => simp [Keyed.put, Distinct, keys]
  | cons e rest ih =>
    obtain ⟨k, a⟩ := e
    obtain ⟨fresh, distinct⟩ := List.nodup_cons.mp distinct
    by_cases h : k = key
    · subst h
      rw [Keyed.put, if_pos rfl]
      exact List.nodup_cons.mpr ⟨fresh, distinct⟩
    · simp only [Keyed.put, h, if_false]
      refine List.nodup_cons.mpr ⟨fun member => ?_, ih distinct⟩
      exact ((mem_keys_put rest key k value).mp member).elim h fresh

theorem Distinct.erase {m : Keyed κ α} (distinct : m.Distinct) (key : κ) :
    (m.erase key).Distinct :=
  List.Pairwise.sublist (List.filter_sublist.map _) distinct

/-- Every entry of such a map counts. -/
theorem Distinct.mem_iff {m : Keyed κ α} (distinct : m.Distinct) {key : κ} {value : α} :
    (key, value) ∈ m ↔ m.get? key = some value := by
  induction m with
  | nil => simp
  | cons e rest ih =>
    obtain ⟨k, a⟩ := e
    obtain ⟨fresh, distinct⟩ := List.nodup_cons.mp distinct
    by_cases h : k = key
    · subst h
      have absent : (k, value) ∉ rest := fun member =>
        fresh (List.mem_map.mpr ⟨(k, value), member, rfl⟩)
      simp [get?, absent, eq_comm]
    · simp [get?, h, Ne.symm h, ih distinct]

end Keyed

end ManagedDebugger
