import ManagedDebugger.Session.Handles
import ManagedDebugger.Proofs.Trace
import Mathlib.Data.List.Induction

/-!
# One thing for a number

The table of numbers counts frames and references together and forgets both on every resume. Its
history says what each number was handed out for. A number stands for one thing in the whole of a
history, and the table knows it from then until the next time that it is cleared.
-/

namespace ManagedDebugger

theorem Keyed.isEmpty_iff {κ α : Type} [DecidableEq κ] {m : Keyed κ α} :
    m.isEmpty = true ↔ ∀ key, m.get? key = none := by
  cases m with
  | nil => simp
  | cons e rest =>
      constructor
      · intro impossible
        cases impossible
      · intro missing
        have found := missing e.1
        simp [Keyed.get?] at found

namespace HandleTable

/-- What a number can stand for. -/
inductive Thing where
  | frame (frame : FrameHandle)
  | reference (reference : VariablesReference)

inductive Call where
  | add (thing : Thing)
  | clear

/-- A call and what it returned. -/
inductive Event where
  | given (thing : Thing) (id : Int)
  | cleared

def Event.call : Event → Call
  | .given thing _ => .add thing
  | .cleared => .clear

def Event.isGiven : Event → Bool
  | .given .. => true
  | .cleared => false

def add (t : HandleTable) : Thing → Int × HandleTable
  | .frame f => t.addFrame f
  | .reference r => t.addReference r

/-- Each kind of thing has its own way to be looked up. -/
def Resolves (t : HandleTable) (id : Int) : Thing → Prop
  | .frame f => t.frame? id = some f
  | .reference r => t.reference? id = some r

theorem not_resolves_empty (id : Int) (thing : Thing) : ¬ empty.Resolves id thing := by
  intro found
  cases thing <;> cases found

theorem not_resolves_clear (t : HandleTable) (id : Int) (thing : Thing) :
    ¬ t.clear.Resolves id thing := by
  intro found
  cases thing <;> cases found

theorem isEmpty_iff {t : HandleTable} : t.isEmpty = true ↔ ∀ id thing, ¬ t.Resolves id thing := by
  simp only [isEmpty, Bool.and_eq_true, Keyed.isEmpty_iff]
  constructor
  · rintro ⟨references, frames⟩ id (f | r) found
    · simp [Resolves, frame?, frames id] at found
    · simp [Resolves, reference?, references id] at found
  · intro unknown
    constructor
    · intro id
      exact Option.eq_none_iff_forall_ne_some.mpr fun r => unknown id (.reference r)
    · intro id
      exact Option.eq_none_iff_forall_ne_some.mpr fun f => unknown id (.frame f)

/-- What holds of every table: the last number is the largest, and a frame finds its number just
where the number finds the frame. -/
structure Sound (t : HandleTable) : Prop where
  positive : 0 ≤ t.last
  within : ∀ {id thing}, t.Resolves id thing → id ≤ t.last
  memo : ∀ {f id}, t.frameIds.get? f = some id ↔ t.Resolves id (.frame f)

theorem sound_empty : empty.Sound :=
  ⟨Int.le_refl 0, fun found => absurd found (not_resolves_empty _ _), by
    simp [empty, Resolves, frame?]⟩

theorem Sound.clear {t : HandleTable} (sound : t.Sound) : t.clear.Sound :=
  ⟨sound.positive, fun found => absurd found (not_resolves_clear _ _ _), by
    simp [HandleTable.clear, Resolves, frame?]⟩

theorem Sound.next_missing {t : HandleTable} (sound : t.Sound) (thing : Thing) :
    ¬ t.Resolves (t.last + 1) thing := by
  intro found
  have below := sound.within found
  omega

/-- All that adding a thing can do: a frame that has a number keeps it, and whatever else is added
gets the next number. -/
inductive Adds (t : HandleTable) (thing : Thing) : Int → HandleTable → Prop
  | known {id : Int} (f : FrameHandle) (frame : thing = .frame f) (resolves : t.Resolves id thing) :
      Adds t thing id t
  | fresh {t' : HandleTable} (last : t'.last = t.last + 1) (sound : t'.Sound)
      (unknown : ∀ f, thing = .frame f → ∀ id, ¬ t.Resolves id (.frame f))
      (resolves : ∀ id other, t'.Resolves id other ↔
        if id = t.last + 1 then other = thing else t.Resolves id other) :
      Adds t thing (t.last + 1) t'

variable {t t' : HandleTable} {thing : Thing} {id : Int}

theorem Sound.next (sound : t.Sound) (last : t'.last = t.last + 1)
    (resolves : ∀ id other, t'.Resolves id other ↔
      if id = t.last + 1 then other = thing else t.Resolves id other)
    (memo : ∀ {f id}, t'.frameIds.get? f = some id ↔ t'.Resolves id (.frame f)) : t'.Sound := by
  have positive := sound.positive
  refine ⟨by omega, fun {id other} found => ?_, memo⟩
  rw [resolves] at found
  by_cases next : id = t.last + 1
  · omega
  · rw [if_neg next] at found
    have below := sound.within found
    omega

theorem adds_addReference (sound : t.Sound) (r : VariablesReference) :
    t.Adds (.reference r) (t.addReference r).1 (t.addReference r).2 := by
  have resolves (id : Int) (other : Thing) : (t.addReference r).2.Resolves id other ↔
      if id = t.last + 1 then other = .reference r else t.Resolves id other := by
    cases other with
    | frame f =>
        have missing := sound.next_missing (.frame f)
        by_cases next : id = t.last + 1
        · simpa [next, Resolves, addReference, frame?] using missing
        · simp [next, Resolves, addReference, frame?]
    | reference r' =>
        by_cases next : id = t.last + 1
        · simp [next, Resolves, addReference, reference?, Keyed.get?_put, eq_comm]
        · simp [next, Resolves, addReference, reference?, Keyed.get?_put, Ne.symm next]
  have memo {f : FrameHandle} {id : Int} :
      t.frameIds.get? f = some id ↔ (t.addReference r).2.Resolves id (.frame f) := sound.memo
  exact .fresh rfl (sound.next rfl resolves memo) (by simp) resolves

theorem adds_addFrame (sound : t.Sound) (f : FrameHandle) :
    t.Adds (.frame f) (t.addFrame f).1 (t.addFrame f).2 := by
  unfold addFrame
  split
  next id known => exact .known f rfl (sound.memo.mp known)
  next unknown =>
    have fresh (id : Int) : ¬ t.Resolves id (.frame f) := by
      simp [← sound.memo, unknown]
    let added : HandleTable :=
      { t with last := t.last + 1, frames := t.frames.put (t.last + 1) f,
               frameIds := t.frameIds.put f (t.last + 1) }
    have resolves (id : Int) (other : Thing) : added.Resolves id other ↔
        if id = t.last + 1 then other = .frame f else t.Resolves id other := by
      cases other with
      | frame f' =>
          by_cases next : id = t.last + 1
          · simp [added, next, Resolves, frame?, Keyed.get?_put, eq_comm]
          · simp [added, next, Resolves, frame?, Keyed.get?_put, Ne.symm next]
      | reference r =>
          have missing := sound.next_missing (.reference r)
          by_cases next : id = t.last + 1
          · simpa [added, next, Resolves, reference?] using missing
          · simp [added, next, Resolves, reference?]
    have memo {f' : FrameHandle} {id : Int} :
        added.frameIds.get? f' = some id ↔ added.Resolves id (.frame f') := by
      rw [resolves, Keyed.get?_put]
      by_cases same : f = f' <;> by_cases next : id = t.last + 1
      · simp [same, next]
      · simpa [same, next, Ne.symm next] using same ▸ fresh id
      · simpa [same, next, Ne.symm same, sound.memo] using sound.next_missing (.frame f')
      · simp [same, next, sound.memo]
    apply Adds.fresh rfl (sound.next rfl resolves memo) _ resolves
    rintro f' same id
    cases same
    exact fresh id

theorem Sound.unique {f : FrameHandle} {id' : Int} (sound : t.Sound)
    (first : t.Resolves id (.frame f)) (second : t.Resolves id' (.frame f)) : id = id' := by
  rw [← sound.memo] at first second
  exact Option.some.inj (first.symm.trans second)

theorem adds_add (sound : t.Sound) (thing : Thing) :
    t.Adds thing (t.add thing).1 (t.add thing).2 := by
  cases thing with
  | frame f => exact adds_addFrame sound f
  | reference r => exact adds_addReference sound r

theorem Adds.sound (sound : t.Sound) (adds : t.Adds thing id t') : t'.Sound := by
  cases adds with
  | known => exact sound
  | fresh _ sound => exact sound

def Call.answer (call : Call) (t : HandleTable) : Event × HandleTable :=
  match call with
  | .add thing => (.given thing (t.add thing).1, (t.add thing).2)
  | .clear => (.cleared, t.clear)

/-- Answers calls one after another, from an empty table on. The history has the oldest first. -/
def serve (calls : List Call) : List Event × HandleTable :=
  calls.foldl
    (fun (events, t) call => (events ++ [(call.answer t).1], (call.answer t).2)) ([], empty)

theorem serve_concat (calls : List Call) (call : Call) :
    serve (calls ++ [call]) =
      ((serve calls).1 ++ [(call.answer (serve calls).2).1], (call.answer (serve calls).2).2) := by
  simp [serve]

/-- What the numbers of a history mean, and what is left of that in the table. -/
structure Unaliased (events : List Event) (t : HandleTable) : Prop where
  /-- Numbers are positive, and there are no more of them than were handed out. -/
  range : ∀ {thing : Thing} {id : Int}, .given thing id ∈ events →
    0 < id ∧ id ≤ events.countP Event.isGiven
  /-- A number that is handed out again stands for the same frame, with no clearing in between. -/
  same : ∀ {before between after first second id id'},
    events = before ++ .given first id :: (between ++ .given second id' :: after) →
      (id = id' ↔ ∃ f, first = .frame f ∧ second = .frame f ∧ .cleared ∉ between)
  /-- A number that was not handed out before is larger than all that were. -/
  ascending : ∀ {before after thing id}, events = before ++ .given thing id :: after →
    (∀ other, .given other id ∉ before) → ∀ {other id'}, .given other id' ∈ before → id' < id
  /-- A number is known, as what it was handed out for, until the table is cleared. -/
  resolves : ∀ {before after thing id}, events = before ++ .given thing id :: after →
    ∀ other, t.Resolves id other ↔ other = thing ∧ .cleared ∉ after
  /-- No other number is known. -/
  handedOut : ∀ {thing id}, t.Resolves id thing → .given thing id ∈ events
  empty : t.isEmpty = true ↔ ∀ id thing, ¬ t.Resolves id thing

/-- The numbers of a history go no further than the table does. -/
structure Counted (events : List Event) (t : HandleTable) : Prop where
  within : ∀ {thing id}, .given thing id ∈ events → 0 < id ∧ id ≤ t.last
  last : t.last ≤ events.countP Event.isGiven

variable {events : List Event}

theorem Counted.range (counted : Counted events t) (member : .given thing id ∈ events) :
    0 < id ∧ id ≤ events.countP Event.isGiven :=
  ⟨(counted.within member).1, Int.le_trans (counted.within member).2 counted.last⟩

theorem Counted.clear (counted : Counted events t) : Counted (events ++ [.cleared]) t.clear := by
  constructor
  · intro thing id member
    have earlier : Event.given thing id ∈ events := by simpa using member
    exact counted.within earlier
  · simpa [HandleTable.clear, List.countP_append, Event.isGiven] using counted.last

theorem Counted.add (sound : t.Sound) (counted : Counted events t)
    (handedOut : ∀ {thing id}, t.Resolves id thing → .given thing id ∈ events)
    (adds : t.Adds thing id t') : Counted (events ++ [.given thing id]) t' := by
  have last := counted.last
  cases adds with
  | known f _ resolves =>
      constructor
      · intro other id' member
        rcases List.mem_append.mp member with earlier | latest
        · exact counted.within earlier
        · obtain ⟨rfl, rfl⟩ : other = thing ∧ id' = id := by simpa using latest
          exact counted.within (handedOut resolves)
      · simp only [List.countP_append, Int.natCast_add]
        omega
  | fresh next _ _ _ =>
      constructor
      · intro other id' member
        rcases List.mem_append.mp member with earlier | latest
        · have below := counted.within earlier
          omega
        · obtain ⟨rfl, rfl⟩ : other = thing ∧ id' = t.last + 1 := by simpa using latest
          have positive := sound.positive
          omega
      · simp only [List.countP_append, List.countP_singleton, Event.isGiven, if_true,
          Int.natCast_add]
        omega

theorem Unaliased.unique (unaliased : Unaliased events t) (found : t.Resolves id thing)
    {other : Thing} : t.Resolves id other ↔ other = thing := by
  obtain ⟨before, after, split⟩ := List.append_of_mem (unaliased.handedOut found)
  obtain ⟨-, kept⟩ := (unaliased.resolves split thing).mp found
  rw [unaliased.resolves split]
  exact and_iff_left kept

theorem unaliased_empty : Unaliased [] HandleTable.empty := by
  constructor
  · intro thing id member
    cases member
  · intro before between after first second id id' split
    simp at split
  · intro before after thing id split
    simp at split
  · intro before after thing id split
    simp at split
  · intro thing id found
    exact absurd found (not_resolves_empty id thing)
  · exact isEmpty_iff

theorem Unaliased.clear (counted : Counted events t) (unaliased : Unaliased events t) :
    Unaliased (events ++ [.cleared]) t.clear := by
  constructor
  · exact counted.clear.range
  · intro before between after first second id id' split
    rw [← List.cons_append, ← List.append_assoc] at split
    rcases concat_eq_split_iff.mp split with ⟨-, impossible, -⟩ | ⟨rest, -, earlier⟩
    · cases impossible
    · rw [List.append_assoc] at earlier
      exact unaliased.same earlier
  · intro before after thing id split
    rcases concat_eq_split_iff.mp split with ⟨-, impossible, -⟩ | ⟨rest, -, earlier⟩
    · cases impossible
    · exact unaliased.ascending earlier
  · intro before after thing id split other
    rcases concat_eq_split_iff.mp split with ⟨-, impossible, -⟩ | ⟨rest, rfl, -⟩
    · cases impossible
    · simp [not_resolves_clear]
  · intro thing id found
    exact absurd found (not_resolves_clear t id thing)
  · exact isEmpty_iff

section Added

variable {before between : List Event} {first other : Thing} {id' : Int}

theorem Unaliased.resolves_added_iff (unaliased : Unaliased events t) (adds : t.Adds thing id t') :
    t'.Resolves id other ↔ other = thing := by
  cases adds with
  | known f frame resolves => exact unaliased.unique resolves
  | fresh _ _ _ resolves => rw [resolves, if_pos rfl]

/-- What was handed out before is known as it was. -/
theorem Counted.resolves_earlier_iff (counted : Counted events t) (adds : t.Adds thing id t')
    (earlier : .given first id' ∈ events) : t'.Resolves id' other ↔ t.Resolves id' other := by
  cases adds with
  | known f frame resolves => rfl
  | fresh _ _ _ resolves =>
      have below := counted.within earlier
      rw [resolves, if_neg (by omega)]

/-- A number comes up again for a frame that is still known by it, and never otherwise. -/
theorem Unaliased.again_iff (sound : t.Sound) (counted : Counted events t)
    (unaliased : Unaliased events t) (adds : t.Adds thing id t')
    (split : events = before ++ .given first id' :: between) :
    id' = id ↔ ∃ f, first = .frame f ∧ thing = .frame f ∧ .cleared ∉ between := by
  have known := unaliased.resolves split
  cases adds with
  | known f frame resolves =>
      constructor
      · rintro rfl
        obtain ⟨rfl, kept⟩ := (known thing).mp resolves
        exact ⟨f, frame, frame, kept⟩
      · rintro ⟨f', rfl, rfl, kept⟩
        exact sound.unique ((known _).mpr ⟨rfl, kept⟩) resolves
  | fresh _ _ unknown _ =>
      have below := counted.within (split ▸ List.mem_append_right before (List.mem_cons_self ..))
      constructor
      · rintro rfl
        omega
      · rintro ⟨f', rfl, rfl, kept⟩
        exact absurd ((known _).mpr ⟨rfl, kept⟩) (unknown f' rfl id')

theorem Unaliased.lt_of_new (counted : Counted events t) (unaliased : Unaliased events t)
    (adds : t.Adds thing id t') (new : ∀ other, .given other id ∉ events)
    (earlier : .given other id' ∈ events) : id' < id := by
  cases adds with
  | known f frame resolves => exact absurd (unaliased.handedOut resolves) (new thing)
  | fresh _ _ _ _ =>
      have below := counted.within earlier
      omega

theorem Unaliased.mem_of_added (unaliased : Unaliased events t) (adds : t.Adds thing id t')
    (found : t'.Resolves id' other) : .given other id' ∈ events ++ [.given thing id] := by
  cases adds with
  | known f frame resolves => exact List.mem_append_left _ (unaliased.handedOut found)
  | fresh _ _ _ resolves =>
      rw [resolves] at found
      by_cases next : id' = t.last + 1
      · rw [if_pos next] at found
        simp [next, found]
      · rw [if_neg next] at found
        exact List.mem_append_left _ (unaliased.handedOut found)

end Added

theorem Unaliased.add (sound : t.Sound) (counted : Counted events t)
    (unaliased : Unaliased events t) (adds : t.Adds thing id t') :
    Unaliased (events ++ [.given thing id]) t' := by
  constructor
  · exact (counted.add sound unaliased.handedOut adds).range
  · intro before between after first second id₁ id₂ split
    rw [← List.cons_append, ← List.append_assoc] at split
    -- The second of the two is the latest event, or both have come up before.
    rcases concat_eq_split_iff.mp split with ⟨here, latest, rfl⟩ | ⟨rest, rfl, earlier⟩
    · cases latest
      exact unaliased.again_iff sound counted adds here.symm
    · rw [List.append_assoc] at earlier
      exact unaliased.same earlier
  · intro before after first id' split new other id'' member
    rcases concat_eq_split_iff.mp split with ⟨rfl, latest, rfl⟩ | ⟨rest, rfl, earlier⟩
    · cases latest
      exact unaliased.lt_of_new counted adds new member
    · exact unaliased.ascending earlier new member
  · intro before after first id' split other
    rcases concat_eq_split_iff.mp split with ⟨rfl, latest, rfl⟩ | ⟨rest, rfl, earlier⟩
    · cases latest
      simpa using unaliased.resolves_added_iff adds
    · have member : .given first id' ∈ events :=
        earlier ▸ List.mem_append_right before (List.mem_cons_self ..)
      rw [counted.resolves_earlier_iff adds member, unaliased.resolves earlier]
      simp
  · exact fun found => unaliased.mem_of_added adds found
  · exact isEmpty_iff

theorem Call.answer_call (call : Call) (t : HandleTable) : (call.answer t).1.call = call := by
  cases call <;> rfl

theorem recorded_serve (calls : List Call) :
    (serve calls).2.Sound ∧ Counted (serve calls).1 (serve calls).2 ∧
      Unaliased (serve calls).1 (serve calls).2 := by
  induction calls using List.reverseRecOn with
  | nil => exact ⟨sound_empty, ⟨by simp [serve], by simp [serve, empty]⟩, unaliased_empty⟩
  | append_singleton calls call inductionHypothesis =>
      obtain ⟨sound, counted, unaliased⟩ := inductionHypothesis
      rw [serve_concat]
      cases call with
      | add thing =>
          have adds := adds_add sound thing
          exact ⟨adds.sound sound, counted.add sound unaliased.handedOut adds,
            unaliased.add sound counted adds⟩
      | clear => exact ⟨sound.clear, counted.clear, unaliased.clear counted⟩

/-- Whatever is asked of a table, a number never stands for two things. -/
theorem unaliased_serve (calls : List Call) :
    (serve calls).1.map Event.call = calls ∧ Unaliased (serve calls).1 (serve calls).2 := by
  constructor
  · induction calls using List.reverseRecOn with
    | nil => rfl
    | append_singleton calls call inductionHypothesis =>
        rw [serve_concat, List.map_append, inductionHypothesis, List.map_singleton,
          Call.answer_call]
  · exact (recorded_serve calls).2.2

end HandleTable

end ManagedDebugger
