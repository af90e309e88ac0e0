import ManagedDebugger.Session.Requests

/-!
# Numbers that stay good

Numbers are given out in ascending order, so a new one never takes the place of an old one: whatever
adds to a table of numbers extends it, and only clearing the table makes a number bad.
-/

namespace ManagedDebugger

namespace HandleTable

/-- No number is above the last one that was given out. -/
structure Numbered (t : HandleTable) : Prop where
  frame : ∀ {id f}, t.frame? id = some f → id ≤ t.last
  reference : ∀ {id r}, t.reference? id = some r → id ≤ t.last

/-- Every number of a table means the same in another one. -/
structure Extends (t t' : HandleTable) : Prop where
  numbered : t'.Numbered
  frame : ∀ {id f}, t.frame? id = some f → t'.frame? id = some f
  reference : ∀ {id r}, t.reference? id = some r → t'.reference? id = some r

theorem numbered_empty : empty.Numbered := by
  constructor <;> intro id f found <;> cases found

theorem numbered_clear (t : HandleTable) : t.clear.Numbered := by
  constructor <;> intro id f found <;> cases found

theorem Extends.refl {t : HandleTable} (numbered : t.Numbered) : t.Extends t :=
  ⟨numbered, id, id⟩

theorem Extends.trans {t t' t'' : HandleTable} (first : t.Extends t') (second : t'.Extends t'') :
    t.Extends t'' :=
  ⟨second.numbered, fun found => second.frame (first.frame found),
    fun found => second.reference (first.reference found)⟩

theorem extends_addReference {t : HandleTable} (numbered : t.Numbered) (r : VariablesReference) :
    t.Extends (t.addReference r).2 := by
  have other {id : Int} {r' : VariablesReference} (found : t.reference? id = some r') :
      (t.references.put (t.last + 1) r).get? id = some r' := by
    have below := numbered.reference found
    rw [Keyed.get?_put, if_neg (by omega)]
    exact found
  refine ⟨⟨fun found => ?_, fun {id r'} found => ?_⟩, fun found => found, other⟩
  · have below := numbered.frame found
    simp only [addReference]
    omega
  · simp only [addReference, reference?, Keyed.get?_put] at found ⊢
    split at found
    · omega
    · have below := numbered.reference found
      omega

theorem extends_addFrame {t : HandleTable} (numbered : t.Numbered) (f : FrameHandle) :
    t.Extends (t.addFrame f).2 := by
  unfold addFrame
  split
  · exact .refl numbered
  · have other {id : Int} {f' : FrameHandle} (found : t.frame? id = some f') :
        (t.frames.put (t.last + 1) f).get? id = some f' := by
      have below := numbered.frame found
      rw [Keyed.get?_put, if_neg (by omega)]
      exact found
    refine ⟨⟨fun {id f'} found => ?_, fun found => ?_⟩, other, fun found => found⟩
    · simp only [frame?, Keyed.get?_put] at found
      dsimp only
      split at found
      · omega
      · have below := numbered.frame found
        omega
    · have below := numbered.reference found
      dsimp only
      omega

/-- A change of a table under which its numbers stay good. -/
def Extending {α : Type} (change : HandleTable → α × HandleTable) : Prop :=
  ∀ t : HandleTable, t.Numbered → t.Extends (change t).2

theorem extending_frameScopes (f : FrameHandle) : Extending (frameScopes f) :=
  fun _ numbered => extends_addReference numbered _

theorem extending_numberFrames (thread : ThreadId)
    (described : List (Nat × String × Option SourceLocation)) :
    Extending (Session.numberFrames thread described) := by
  intro t numbered
  induction described generalizing t with
  | nil => exact .refl numbered
  | cons d rest inductionHypothesis =>
      have first := extends_addFrame numbered ⟨thread, d.1.toUInt32⟩
      exact first.trans (inductionHypothesis _ first.numbered)

theorem extending_register (p : PendingVariable) : Extending p.register := by
  intro t numbered
  unfold PendingVariable.register
  cases p.expand with
  | none => exact .refl numbered
  | some r => exact extends_addReference numbered r

theorem extending_registerAll (pending : List PendingVariable) :
    Extending (PendingVariable.registerAll pending) := by
  intro t numbered
  induction pending generalizing t with
  | nil => exact .refl numbered
  | cons p rest inductionHypothesis =>
      have first := extending_register p t numbered
      exact first.trans (inductionHypothesis _ first.numbered)

end HandleTable

end ManagedDebugger
