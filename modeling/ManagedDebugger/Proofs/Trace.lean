import Mathlib.Data.List.Basic

/-!
# What is opened and settled in a trace

A trace says what happened, the oldest first. Something that happened may leave a matter open, such
as a question that waits for its answer, and something later may settle it; only the first that does
so counts.
-/

namespace ManagedDebugger

variable {α β ρ : Type}

/-- Where something stands in a trace that has grown by one. -/
theorem concat_eq_split_iff {trace before after : List α} {x y : α} :
    trace ++ [y] = before ++ x :: after ↔
      before = trace ∧ x = y ∧ after = [] ∨
        ∃ rest, after = rest ++ [y] ∧ trace = before ++ x :: rest := by
  constructor
  · intro same
    rcases List.eq_nil_or_concat' after with rfl | ⟨rest, z, rfl⟩
    · obtain ⟨rfl, last⟩ := List.append_inj' same rfl
      exact .inl ⟨rfl, (List.singleton_inj.mp last).symm, rfl⟩
    · rw [← List.cons_append, ← List.append_assoc] at same
      obtain ⟨rfl, last⟩ := List.append_inj' same rfl
      obtain rfl := List.singleton_inj.mp last
      exact .inr ⟨rest, rfl, rfl⟩
  · rintro (⟨rfl, rfl, rfl⟩ | ⟨rest, rfl, rfl⟩)
    · rfl
    · simp

theorem filterMap_concat (f : α → Option β) (trace : List α) (y : α) :
    (trace ++ [y]).filterMap f = trace.filterMap f ++ (f y).toList := by
  rw [List.filterMap_append]
  cases found : f y <;> simp [found]

/-- How much of a trace of two parts has happened. -/
theorem prefix_append_iff {trace first second : List α} :
    trace <+: first ++ second ↔
      trace <+: first ∨ ∃ rest, rest <+: second ∧ trace = first ++ rest := by
  constructor
  · intro earlier
    rcases List.prefix_or_prefix_of_prefix earlier (List.prefix_append first second) with
      within | ⟨rest, rfl⟩
    · exact .inl within
    · exact .inr ⟨rest, (List.prefix_append_right_inj first).mp earlier, rfl⟩
  · rintro (within | ⟨rest, beyond, rfl⟩)
    · exact within.trans (List.prefix_append first second)
    · exact (List.prefix_append_right_inj first).mpr beyond

/-- Where names do not repeat, a name has one place. -/
theorem split_unique {name : α → Option β} {trace : List α} (nodup : (trace.filterMap name).Nodup)
    {first second before after : List α} {x y : α} {b : β} (left : trace = first ++ x :: second)
    (right : trace = before ++ y :: after) (named : name x = some b) (same : name y = some b) :
    first = before ∧ x = y ∧ second = after := by
  induction trace generalizing first before with
  | nil => simp at left
  | cons z trace inductionHypothesis =>
      have fresh {b : β} (named : name z = some b) : b ∉ trace.filterMap name := by
        rw [List.filterMap_cons_some named] at nodup
        exact (List.nodup_cons.mp nodup).1
      have others : (trace.filterMap name).Nodup :=
        nodup.sublist (List.Sublist.filterMap name (List.sublist_cons_self z trace))
      cases first with
      | nil =>
          obtain ⟨rfl, rfl⟩ := List.cons.inj left
          cases before with
          | nil =>
              obtain ⟨rfl, rfl⟩ := List.cons.inj right
              exact ⟨rfl, rfl, rfl⟩
          | cons w before =>
              obtain ⟨-, rfl⟩ := List.cons.inj right
              exact absurd (List.mem_filterMap.mpr ⟨y, by simp, same⟩) (fresh named)
      | cons w first =>
          obtain ⟨rfl, rfl⟩ := List.cons.inj left
          cases before with
          | nil =>
              obtain ⟨rfl, -⟩ := List.cons.inj right
              exact absurd (List.mem_filterMap.mpr ⟨x, by simp, named⟩) (fresh same)
          | cons v before =>
              obtain ⟨rfl, behind⟩ := List.cons.inj right
              obtain ⟨rfl, rfl, rfl⟩ := inductionHypothesis others rfl behind
              exact ⟨rfl, rfl, rfl⟩

/-- It happened, and nothing has settled it since. -/
def Unsettled (settles : α → Option ρ) (trace : List α) (x : α) : Prop :=
  ∃ before after, trace = before ++ x :: after ∧ after.findSome? settles = none

variable {settles : α → Option ρ} {trace : List α} {x y : α}

theorem not_unsettled_nil : ¬ Unsettled settles [] x := by
  rintro ⟨before, after, same, -⟩
  simp at same

theorem unsettled_concat_iff :
    Unsettled settles (trace ++ [y]) x ↔ x = y ∨ Unsettled settles trace x ∧ settles y = none := by
  constructor
  · rintro ⟨before, after, same, unsettled⟩
    rcases concat_eq_split_iff.mp same with ⟨-, rfl, -⟩ | ⟨rest, rfl, split⟩
    · exact .inl rfl
    · rw [List.findSome?_append, Option.or_eq_none_iff] at unsettled
      exact .inr ⟨⟨before, rest, split, unsettled.1⟩, by simpa using unsettled.2⟩
  · rintro (rfl | ⟨⟨before, rest, rfl, unsettled⟩, silent⟩)
    · exact ⟨trace, [], rfl, rfl⟩
    · refine ⟨before, rest ++ [y], by simp, ?_⟩
      rw [List.findSome?_append, unsettled]
      simp [silent]

/-- Where names do not repeat, what is settled can be read off behind the only place of a name. -/
theorem unsettled_iff_of_split {name : α → Option β} (nodup : (trace.filterMap name).Nodup)
    {before after : List α} {b : β} (split : trace = before ++ x :: after) (named : name x = some b)
    (same : name y = some b) :
    Unsettled settles trace y ↔ y = x ∧ after.findSome? settles = none := by
  constructor
  · rintro ⟨first, second, found, unsettled⟩
    obtain ⟨-, rfl, rfl⟩ := split_unique nodup found split same named
    exact ⟨rfl, unsettled⟩
  · rintro ⟨rfl, unsettled⟩
    exact ⟨before, after, split, unsettled⟩

end ManagedDebugger
