import ManagedDebugger.Proofs.Eval.Snapshot

/-!
# Indices in their bounds

An index comes as any value: a literal, a primitive in the target or one in a box there, of any
type, negative or too large for a `long`. It is brought over, becomes a number, is compared with its
dimension and becomes a word. What arrives at the target is the number that was given, and only if
it is in its bounds: an element is asked for exactly if there is one at the indices.
-/

namespace ManagedDebugger

open ExpandContext (InBounds)

/-- The array and the indices whose element is asked for. -/
def EvalOp.element? : EvalOp → Option (RemoteValue × List UInt32)
  | .native (.arrayElement array indices) => some (array, indices)
  | _ => none

/-- The elements that are asked for, in order. -/
def elementsAsked (es : List (Exchange evalEffect)) : List (RemoteValue × List UInt32) :=
  es.filterMap fun x => x.op.element?

theorem only_localize (v : EvalValue) : (localize v).run.Only fun op => op.element? = none := by
  have asks {c : NativeCall} (other : (EvalOp.native c).element? = none) :
      (Eval.native c).run.Only fun op => op.element? = none := .perform other fun _ => .done _
  cases v with
  | primitive | null | void => exact .done _
  | remote v =>
      obtain ⟨id, kind, typeName⟩ := v
      cases kind with
      | string | object | array | nullReference => exact .done _
      | primitive type => exact .run_bind (asks rfl) fun p => .done _
      | boxed =>
          refine .run_bind (asks rfl) fun inner => ?_
          dsimp only
          split
          · exact .run_bind (asks rfl) fun p => .done _
          · exact .done _

/-- No bound of an array is too large for an index. -/
theorem toNat_le_maxValue (d : UInt32) : (d.toNat : Int) ≤ Int64.maxValue.toInt := by
  have bound : (4294967296 : Int) ≤ Int64.maxValue.toInt := by decide
  have fits : d.toNat < 4294967296 := d.toNat_lt
  omega

namespace Snapshot

variable (S : Snapshot) {α β : Type}

/-- The number that an index stands for, if it is an integer or a character. -/
def integer? (v : EvalValue) : Option Int :=
  match S.localized v with
  | .primitive p => p.toInt?
  | _ => none

/-- The indices that are given are those of an element of an array with these dimensions. -/
structure Addresses (given : List EvalValue) (place dims : List UInt32) : Prop where
  numbers : List.Forall₂ (fun v i => S.integer? v = some (i.toNat : Int)) given place
  inBounds : InBounds place dims

namespace Addresses

variable {S : Snapshot} {v : EvalValue} {given : List EvalValue} {place dims : List UInt32}
  {d : UInt32}

theorem nil : S.Addresses [] [] [] := ⟨.nil, .nil⟩

theorem cons {i : UInt32} (number : S.integer? v = some (i.toNat : Int))
    (small : i.toNat < d.toNat) (addresses : S.Addresses given place dims) :
    S.Addresses (v :: given) (i :: place) (d :: dims) :=
  ⟨.cons number addresses.numbers, .cons small addresses.inBounds⟩

/-- The first index is in its bounds, and so are the others. -/
theorem uncons (addresses : S.Addresses (v :: given) place (d :: dims)) :
    (∃ i : UInt32, S.integer? v = some (i.toNat : Int) ∧ i.toNat < d.toNat) ∧
      ∃ rest, S.Addresses given rest dims := by
  obtain ⟨numbers, inBounds⟩ := addresses
  cases inBounds with
  | cons small inBounds =>
      cases numbers with
      | cons number numbers => exact ⟨⟨_, number, small⟩, _, numbers, inBounds⟩

end Addresses

/-- An evaluation asks for some elements and comes to a result. -/
def Asks (p : Eval α) (asked : List (RemoteValue × List UInt32)) (r : Except EvalError α) : Prop :=
  ∃ es, p.run.Settles S.Shows es r ∧ elementsAsked es = asked

variable {S}

namespace Asks

variable {asked asked' : List (RemoteValue × List UInt32)}

theorem pure (a : α) : S.Asks (Pure.pure a) [] (.ok a) := ⟨[], .done _, rfl⟩

theorem throw (e : EvalError) : S.Asks (MonadExcept.throw e : Eval α) [] (.error e) :=
  ⟨[], .done _, rfl⟩

theorem bind {p : Eval α} {f : α → Eval β} {a : α} {r : Except EvalError β}
    (first : S.Asks p asked (.ok a)) (second : S.Asks (f a) asked' r) :
    S.Asks (p >>= f) (asked ++ asked') r := by
  obtain ⟨es, left, rfl⟩ := first
  obtain ⟨es', right, rfl⟩ := second
  exact ⟨es ++ es', .run_bind left right, List.filterMap_append⟩

theorem bind_error {p : Eval α} {f : α → Eval β} {e : EvalError}
    (failed : S.Asks p asked (.error e)) : S.Asks (p >>= f) asked (.error e) := by
  obtain ⟨es, settles, rfl⟩ := failed
  exact ⟨es, .run_bind_error settles, rfl⟩

theorem native {c : NativeCall} {a : c.Answer} (shown : S.Shows (answered c a)) :
    S.Asks (Eval.native c) (EvalOp.native c).element?.toList (.ok a) := by
  refine ⟨_, settles_native shown, ?_⟩
  cases asked : (EvalOp.native c).element? <;> simp [elementsAsked, answered, asked]

theorem localize (v : EvalValue) : S.Asks (localize v) [] (.ok (S.localized v)) := by
  obtain ⟨es, settles⟩ := settles_localize (S := S) v
  refine ⟨es, settles, ?_⟩
  apply List.filterMap_eq_nil_iff.mpr
  exact only_localize v es _ settles.plays

/-- What settles is all that may happen. -/
theorem unique {p : Eval α} {r r' : Except EvalError α} {es : List (Exchange evalEffect)}
    (asks : S.Asks p asked r) (played : p.run.Plays es r')
    (follows : ∀ x ∈ es, x.Follows S.Shows) : elementsAsked es = asked ∧ r' = r := by
  obtain ⟨es, settles, rfl⟩ := asks
  obtain ⟨rfl, rfl⟩ := settles.unique played follows
  exact ⟨rfl, rfl⟩

end Asks

open EvalScope

/-- An index is an integer that is not too large, or an error. -/
theorem asks_indexOf (v : EvalValue) :
    (∃ i, S.integer? v = some i ∧ i ≤ Int64.maxValue.toInt ∧ S.Asks (indexOf v) [] (.ok i)) ∨
    (∀ i, S.integer? v = some i → Int64.maxValue.toInt < i) ∧
      ∃ e, S.Asks (indexOf v) [] (.error e) := by
  have brought := Asks.localize (S := S) v
  unfold indexOf integer?
  cases known : S.localized v with
  | null | void | remote =>
      rw [known] at brought
      exact .inr ⟨nofun, _, brought.bind (.throw _)⟩
  | primitive p =>
      rw [known] at brought
      dsimp only
      cases number : p.toInt? with
      | none =>
          refine .inr ⟨nofun, .notAnIndex p.type.keyword, brought.bind ?_⟩
          simp only [Primitive.index?, number]
          exact .throw _
      | some i =>
          by_cases small : i ≤ Int64.maxValue.toInt
          · refine .inl ⟨i, rfl, small, brought.bind ?_⟩
            simp only [Primitive.index?, number, Option.filter_some, small]
            exact .pure i
          · refine .inr ⟨?_, .notAnIndex p.type.keyword, brought.bind ?_⟩
            · rintro _ ⟨⟩
              omega
            · simp only [Primitive.index?, number, Option.filter_some, small]
              exact .throw _

theorem asks_position {given : List EvalValue} {dims : List UInt32}
    (sameRank : given.length = dims.length) :
    (∃ place, S.Addresses given place dims ∧ S.Asks (position given dims) [] (.ok place)) ∨
    (¬ ∃ place, S.Addresses given place dims) ∧
      ∃ e, S.Asks (position given dims) [] (.error e) := by
  induction given generalizing dims with
  | nil =>
      obtain rfl := List.length_eq_zero_iff.mp sameRank.symm
      exact .inl ⟨[], .nil, .pure []⟩
  | cons v given inductionHypothesis =>
      cases dims with
      | nil => cases sameRank
      | cons d dims =>
          unfold position
          rcases asks_indexOf (S := S) v with ⟨i, number, -, asks⟩ | ⟨large, e, failed⟩
          · by_cases outside : i < 0 ∨ (d.toNat : Int) ≤ i
            · refine .inr ⟨?_, .indexOutOfRange, asks.bind ?_⟩
              · rintro ⟨place, addresses⟩
                obtain ⟨⟨j, number', small⟩, -⟩ := addresses.uncons
                obtain rfl := Option.some.inj (number.symm.trans number')
                omega
              · rw [if_pos outside]
                exact .throw _
            · obtain ⟨n, rfl⟩ : ∃ n : Nat, i = n := ⟨i.toNat, by omega⟩
              have small : n < d.toNat := by omega
              have fits : n < UInt32.size := Nat.lt_trans small d.toNat_lt
              have word : n.toUInt32.toNat = n := UInt32.toNat_ofNat_of_lt' fits
              rcases inductionHypothesis (Nat.succ.inj sameRank) with
                ⟨place, addresses, rest⟩ | ⟨none, e, failed⟩
              · refine .inl ⟨n.toUInt32 :: place, .cons ?_ ?_ addresses, asks.bind ?_⟩
                · rw [word]
                  exact number
                · rw [word]
                  exact small
                · rw [if_neg outside]
                  exact rest.bind (.pure _)
              · refine .inr ⟨?_, e, asks.bind ?_⟩
                · rintro ⟨place, addresses⟩
                  exact none addresses.uncons.2
                · rw [if_neg outside]
                  exact failed.bind_error
          · -- An index that is no number, or none that fits, is in the bounds of no array.
            refine .inr ⟨?_, e, failed.bind_error⟩
            rintro ⟨place, addresses⟩
            obtain ⟨⟨j, number, small⟩, -⟩ := addresses.uncons
            have above := large _ number
            have below := toNat_le_maxValue d
            omega

theorem asks_elementOfArray (array : RemoteValue) (given : List EvalValue) :
    (∃ place, S.Addresses given place (S.dimensions array) ∧
      S.Asks (elementOfArray array given) [(array, place)]
        (.ok (.remote (S.element array place)))) ∨
    (¬ ∃ place, S.Addresses given place (S.dimensions array)) ∧
      ∃ e, S.Asks (elementOfArray array given) [] (.error e) := by
  have dims : S.Asks (Eval.native (.arrayDimensions array)) [] (.ok (S.dimensions array)) :=
    .native rfl
  unfold elementOfArray
  by_cases sameRank : given.length = (S.dimensions array).length
  · rcases asks_position (S := S) sameRank with ⟨place, addresses, asks⟩ | ⟨none, e, failed⟩
    · refine .inl ⟨place, addresses, dims.bind ?_⟩
      rw [if_neg (not_not.mpr sameRank)]
      have read : S.Asks (Eval.native (.arrayElement array place)) [(array, place)]
          (.ok (S.element array place)) := .native ⟨addresses.inBounds, rfl⟩
      exact asks.bind (read.bind (.pure _))
    · refine .inr ⟨none, e, dims.bind ?_⟩
      rw [if_neg (not_not.mpr sameRank)]
      exact failed.bind_error
  · refine .inr ⟨?_, .wrongRank (S.dimensions array).length, dims.bind ?_⟩
    · rintro ⟨place, addresses⟩
      exact sameRank (addresses.numbers.length_eq.trans addresses.inBounds.length_eq)
    · rw [if_pos sameRank]
      exact .throw _

/-- The unit of a string at an index. -/
theorem asks_unitOfString (text : RemoteValue) (index : EvalValue) :
    (∃ (n : Nat) (u : UInt16), S.integer? index = some (n : Int) ∧
      (Text.units (S.text text))[n]? = some u ∧
      S.Asks (unitOfString text index) [] (.ok (.primitive (.char u)))) ∨
    (∀ n : Nat, S.integer? index = some (n : Int) → (Text.units (S.text text)).length ≤ n) ∧
      ∃ e, S.Asks (unitOfString text index) [] (.error e) := by
  have read : S.Asks (Eval.native (.readString text)) [] (.ok (S.text text)) := .native rfl
  unfold unitOfString
  rcases asks_indexOf (S := S) index with ⟨i, number, -, asks⟩ | ⟨large, e, failed⟩
  · by_cases negative : i < 0
    · refine .inr ⟨?_, .indexOutOfRange, asks.bind (read.bind ?_)⟩
      · intro n number'
        obtain rfl := Option.some.inj (number.symm.trans number')
        omega
      · dsimp only
        rw [if_pos negative]
        exact .throw _
    · obtain ⟨n, rfl⟩ : ∃ n : Nat, i = n := ⟨i.toNat, by omega⟩
      cases found : (Text.units (S.text text))[n]? with
      | some u =>
          refine .inl ⟨n, u, number, found, asks.bind (read.bind ?_)⟩
          simp only [negative, if_false, Int.toNat_natCast, found]
          exact .pure _
      | none =>
          refine .inr ⟨?_, .indexOutOfRange, asks.bind (read.bind ?_)⟩
          · intro m number'
            obtain rfl := Int.ofNat.inj (Option.some.inj (number.symm.trans number'))
            exact List.getElem?_eq_none_iff.mp found
          · simp only [negative, if_false, Int.toNat_natCast, found]
            exact .throw _
  · refine .inr ⟨?_, e, failed.bind_error⟩
    intro n number
    have above := large n number
    have short := S.length_text text
    omega

end Snapshot

open Snapshot

/-- While reads of the target succeed, an array is asked for the element at the indices that are
given if each dimension has one, and is in its bounds, and for nothing otherwise, which is an error.
A string has a unit at an index exactly if the index is in its bounds, and never asks for an
element. -/
theorem element_inBounds {S : Snapshot} {s : EvalScope} {target : RemoteValue}
    {given : List EvalValue} {es : List (Exchange evalEffect)}
    {r : Except EvalError (EvalValue × Bool)}
    (played : (s.element (.remote target) given).run.Plays es r)
    (follows : ∀ x ∈ es, x.Follows S.Shows) :
    (target.kind = .array →
      (∃ place, S.Addresses given place (S.dimensions target) ∧
        elementsAsked es = [(target, place)] ∧
        r = .ok (.remote (S.element target place), true)) ∨
      (¬ ∃ place, S.Addresses given place (S.dimensions target)) ∧
        elementsAsked es = [] ∧ ∃ e, r = .error e) ∧
    (target.kind = .string → ∀ index, given = [index] → elementsAsked es = [] ∧
      ((∃ (n : Nat) (u : UInt16), S.integer? index = some (n : Int) ∧
        (Text.units (S.text target))[n]? = some u ∧ r = .ok (.primitive (.char u), false)) ∨
      (∀ n : Nat, S.integer? index = some (n : Int) → (Text.units (S.text target)).length ≤ n) ∧
        ∃ e, r = .error e)) := by
  obtain ⟨id, kind, typeName⟩ := target
  constructor
  · rintro ⟨⟩
    rcases asks_elementOfArray (S := S) ⟨id, .array, typeName⟩ given with
      ⟨place, addresses, asks⟩ | ⟨none, e, failed⟩
    · have whole : S.Asks (s.element (.remote ⟨id, .array, typeName⟩) given) _
          (.ok (.remote (S.element ⟨id, .array, typeName⟩ place), true)) := asks.bind (.pure _)
      obtain ⟨asked, rfl⟩ := whole.unique played follows
      exact .inl ⟨place, addresses, asked, rfl⟩
    · have whole : S.Asks (s.element (.remote ⟨id, .array, typeName⟩) given) [] (.error e) :=
        failed.bind_error
      obtain ⟨asked, rfl⟩ := whole.unique played follows
      exact .inr ⟨none, asked, e, rfl⟩
  · rintro ⟨⟩ index rfl
    rcases asks_unitOfString (S := S) ⟨id, .string, typeName⟩ index with
      ⟨n, u, number, found, asks⟩ | ⟨outside, e, failed⟩
    · have whole : S.Asks (s.element (.remote ⟨id, .string, typeName⟩) [index]) []
          (.ok (.primitive (.char u), false)) := asks.bind (.pure _)
      obtain ⟨asked, rfl⟩ := whole.unique played follows
      exact ⟨asked, .inl ⟨n, u, number, found, rfl⟩⟩
    · have whole : S.Asks (s.element (.remote ⟨id, .string, typeName⟩) [index]) [] (.error e) :=
        failed.bind_error
      obtain ⟨asked, rfl⟩ := whole.unique played follows
      exact ⟨asked, .inr ⟨outside, e, rfl⟩⟩

section Matrix

def boxedTwo : RemoteValue := ⟨⟨2⟩, .boxed, "System.Int64"⟩

/-- A character, and the number in the box. -/
def rowAndColumn : List EvalValue := [.primitive (.char 1), .remote boxedTwo]

def elementRead : List (Exchange evalEffect) :=
  [answered (.arrayDimensions matrix) [2, 3],
    answered (.unbox boxedTwo) ⟨⟨3⟩, .primitive .i8, "System.Int64"⟩,
    answered (.readPrimitive ⟨⟨3⟩, .primitive .i8, "System.Int64"⟩) (.i64 2),
    answered (.arrayElement matrix [1, 2]) ⟨⟨12⟩, .object, "A"⟩]

/-- A scope without names. -/
def noNames : EvalScope := ⟨⟨.empty, [], 1, 0, none⟩, .empty⟩

theorem element_inBounds_matrix :
    (noNames.element (.remote matrix) rowAndColumn).run.Plays elementRead
      (.ok (.remote ⟨⟨12⟩, .object, "A"⟩, true)) ∧
    (∀ x ∈ elementRead, x.Follows matrixTarget.Shows) ∧
    ∃ place, matrixTarget.Addresses rowAndColumn place [2, 3] ∧
      elementsAsked elementRead = [(matrix, place)] := by
  have played : (noNames.element (.remote matrix) rowAndColumn).run.Plays elementRead
      (.ok (.remote ⟨⟨12⟩, .object, "A"⟩, true)) :=
    .perform (.perform (.perform (.perform (.done _))))
  have follows : ∀ x ∈ elementRead, x.Follows matrixTarget.Shows := by
    have known : ∀ x ∈ elementRead, matrixTarget.Shows x := by
      simp only [elementRead, List.forall_mem_cons]
      have inside : InBounds [1, 2] [2, 3] := .cons (by decide) (.cons (by decide) .nil)
      exact ⟨rfl, rfl, rfl, ⟨inside, rfl⟩, List.forall_mem_nil _⟩
    exact fun x among => follows_of_shows (known x among)
  rcases (element_inBounds played follows).1 rfl with ⟨place, addresses, asked, -⟩ | ⟨-, none, -⟩
  · exact ⟨played, follows, place, addresses, asked⟩
  · cases none

end Matrix

end ManagedDebugger
