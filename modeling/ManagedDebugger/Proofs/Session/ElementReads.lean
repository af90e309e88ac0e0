import Mathlib.Data.List.Forall2
import ManagedDebugger.Proofs.Eval.Orderly
import ManagedDebugger.Proofs.Session.MemberReads

/-!
# Elements of arrays, read again

The label of an element is the text of its indices. The indices are counted out in row-major order,
so they are in the bounds of the array, however many dimensions it has, and evaluating them reads
the element that the label stands at.
-/

namespace ManagedDebugger

namespace ExpandContext

/-! ## Counting out indices -/

/-- Each index is below its dimension. -/
def InBounds (indices dims : List UInt32) : Prop :=
  List.Forall₂ (fun i d => i.toNat < d.toNat) indices dims

theorem inBounds_indicesFromLast {dims : List UInt32} (nonempty : ∀ d ∈ dims, d ≠ 0) (n : Nat) :
    InBounds (indicesFromLast n dims) dims := by
  induction dims generalizing n with
  | nil => exact .nil
  | cons d dims inductionHypothesis =>
      obtain ⟨here, there⟩ := List.forall_mem_cons.mp nonempty
      have positive : 0 < d.toNat := by
        have other : d.toNat ≠ 0 := fun zero => here (UInt32.toNat_inj.mp zero)
        omega
      refine .cons ?_ (inductionHypothesis there _)
      have small : n % max d.toNat 1 < d.toNat := by
        rw [Nat.max_eq_left positive]
        exact Nat.mod_lt n positive
      have fits : n % max d.toNat 1 < UInt32.size := Nat.lt_trans small d.toNat_lt
      rw [Nat.toUInt32, UInt32.toNat_ofNat_of_lt' fits]
      exact small

theorem inBounds_unflatten {dims : List UInt32} (nonempty : ∀ d ∈ dims, d ≠ 0) (n : Nat) :
    InBounds (unflatten n dims) dims := by
  -- The indices are counted out from the last dimension.
  have reversed : ∀ d ∈ dims.reverse, d ≠ 0 := fun d isElement =>
    nonempty d (List.mem_reverse.mp isElement)
  have bounds := inBounds_indicesFromLast reversed n
  rw [InBounds, ← List.forall₂_reverse_iff, List.reverse_reverse] at bounds
  exact bounds

theorem count_zero (dims : List UInt32) :
    dims.foldl (fun (n : UInt64) d => n * d.toUInt64) 0 = 0 := by
  induction dims with
  | nil => rfl
  | cons d dims inductionHypothesis =>
      rw [List.foldl_cons, UInt64.zero_mul]
      exact inductionHypothesis

theorem count_of_empty {dims : List UInt32} (empty : 0 ∈ dims) (n : UInt64) :
    dims.foldl (fun (n : UInt64) d => n * d.toUInt64) n = 0 := by
  induction dims generalizing n with
  | nil => cases empty
  | cons d dims inductionHypothesis =>
      rw [List.foldl_cons]
      rcases List.mem_cons.mp empty with rfl | later
      · exact (congrArg (fun n => dims.foldl _ n) UInt64.mul_zero).trans (count_zero dims)
      · exact inductionHypothesis later _

/-- An array that has elements has no empty dimension. -/
theorem nonempty_of_elementCount {dims : List UInt32} {n : Nat}
    (isElement : n < elementCount dims) : ∀ d ∈ dims, d ≠ 0 := by
  rintro d isDimension rfl
  rw [elementCount, count_of_empty isDimension] at isElement
  exact Nat.not_lt_zero n isElement

end ExpandContext

/-! ## Listing the elements of an array -/

namespace Eval

variable {α β : Type} {es : List (Exchange evalEffect)}

theorem ofNative_mapM (f : α → Native β) (xs : List α) :
    ofNative (xs.mapM f) = xs.mapM fun x => ofNative (f x) := by
  induction xs with
  | nil => rfl
  | cons x xs inductionHypothesis =>
      rw [List.mapM_cons, List.mapM_cons, ofNative_bind]
      refine bind_congr fun y => ?_
      rw [ofNative_bind, inductionHypothesis]
      rfl

/-- Each result of a list of programs is the result of one of them. -/
theorem plays_mapM {f : α → Eval β} {xs : List α} {ys : List β}
    (played : (xs.mapM f).run.Plays es (.ok ys)) :
    ∀ y ∈ ys, ∃ x ∈ xs, ∃ part, (f x).run.Plays part (.ok y) ∧ ∀ e ∈ part, e ∈ es := by
  induction xs generalizing es ys with
  | nil =>
      obtain ⟨-, same⟩ := plays_pure_iff.mp played
      obtain rfl := Except.ok.inj same
      exact List.forall_mem_nil _
  | cons x xs inductionHypothesis =>
      rw [List.mapM_cons] at played
      obtain ⟨first, z, rest, here, following, rfl⟩ := plays_bind_ok_iff.mp played
      obtain ⟨second, zs, last, there, finished, rfl⟩ := plays_bind_ok_iff.mp following
      obtain ⟨rfl, same⟩ := plays_pure_iff.mp finished
      obtain rfl := Except.ok.inj same
      intro y isResult
      rcases List.mem_cons.mp isResult with rfl | later
      · exact ⟨x, List.mem_cons_self, first, here, fun e => List.mem_append_left _⟩
      · obtain ⟨x', isElement, part, played, within⟩ := inductionHypothesis there y later
        refine ⟨x', List.mem_cons_of_mem _ isElement, part, played, fun e isPart => ?_⟩
        exact List.mem_append_right _ (List.mem_append_left _ (within e isPart))

end Eval

namespace ExpandContext

variable {ctx : ExpandContext} {array : RemoteValue} {parent : String}
  {es rest : List (Exchange evalEffect)} {children : List Child}

/-- What the listing of an array says of a child: which element it shows. -/
structure ShowsElement (array : RemoteValue) (parent : String) (dims : List UInt32)
    (es : List (Exchange evalEffect)) (c : Child) (indices : List UInt32) (w : RemoteValue) :
    Prop where
  inBounds : InBounds indices dims
  read : answered (.arrayElement array indices) w ∈ es
  name : c.name = (Expr.Access.element indices).text
  value : c.value = .value w
  evaluateName : c.evaluateName =
    if parent.isEmpty then none else some (parent ++ (Expr.Access.element indices).text)

theorem listsElements {start count : Nat}
    (played : (Eval.ofNative (ctx.arrayChildren array parent start count)).run.Plays es
      (.ok children)) :
    ∃ dims, answered (.arrayDimensions array) dims ∈ es ∧
      ∀ c ∈ children, ∃ indices w, ShowsElement array parent dims es c indices w := by
  rw [arrayChildren, Eval.ofNative_bind] at played
  obtain ⟨dims, rest, rfl, following⟩ := Eval.plays_native_bind_ok_iff.mp played
  refine ⟨dims, List.mem_cons_self, fun c isChild => ?_⟩
  rw [Eval.ofNative_mapM] at following
  obtain ⟨n, isPosition, part, listed, within⟩ := Eval.plays_mapM following c isChild
  have inside : n < elementCount dims := by
    obtain ⟨k, small, rfl⟩ := List.mem_range'.mp isPosition
    have : pageEnd ctx.config.maxArrayChildren (elementCount dims) start count ≤
      elementCount dims := Nat.min_le_left _ _
    omega
  rw [elementChild, Eval.ofNative_bind] at listed
  obtain ⟨w, back, rfl, last⟩ := Eval.plays_native_bind_ok_iff.mp listed
  obtain ⟨-, same⟩ := Eval.plays_pure_iff.mp last
  obtain rfl := Except.ok.inj same
  exact ⟨unflatten n dims, w, inBounds_unflatten (nonempty_of_elementCount inside) n,
    List.mem_cons_of_mem _ (within _ List.mem_cons_self), rfl, rfl, rfl⟩

end ExpandContext

/-! ## Evaluating indices -/

namespace EvalScope

open ExpandContext

theorem toInt?_indexValue (i : UInt32) : (Expr.indexValue i).toInt? = some (i.toNat : Int) := by
  rw [Expr.indexValue]
  split
  case isTrue small => exact congrArg some (Int32.toInt_ofNat_of_lt small)
  case isFalse => rw [Nat.toUInt32, UInt32.ofNat_toNat, Primitive.toInt?]

theorem indexOf_indexOperand (i : UInt32) :
    indexOf (Expr.indexOperand i) = pure (i.toNat : Int) := by
  have small : (i.toNat : Int) ≤ Int64.maxValue.toInt := by
    have bound : (4294967296 : Int) ≤ Int64.maxValue.toInt := by decide
    have fits : i.toNat < 4294967296 := i.toNat_lt
    omega
  have known : (Expr.indexValue i).index? = some (i.toNat : Int) := by
    rw [Primitive.index?, toInt?_indexValue, Option.filter_some, if_pos (decide_eq_true small)]
  have localized : localize (Expr.indexOperand i) = pure (.primitive (Expr.indexValue i)) := rfl
  rw [indexOf, localized, pure_bind]
  simp only [known]

/-- Indices in their bounds are the position of an element. -/
theorem position_of_inBounds {indices dims : List UInt32} (inBounds : InBounds indices dims) :
    position (indices.map Expr.indexOperand) dims = pure indices := by
  induction inBounds with
  | nil => rfl
  | @cons i d indices dims small _ inductionHypothesis =>
      have accepted : ¬ ((i.toNat : Int) < 0 ∨ (d.toNat : Int) ≤ i.toNat) := by omega
      have kept : (i.toNat : Int).toNat.toUInt32 = i := UInt32.ofNat_toNat
      rw [List.map_cons, position, indexOf_indexOperand, pure_bind, if_neg accepted,
        inductionHypothesis, pure_bind, kept]

/-- Evaluating the label of an element reads it again. -/
theorem element_again {s : EvalScope} {array w : RemoteValue} {indices dims : List UInt32}
    {es rest : List (Exchange evalEffect)} {r : Except EvalError Evaluated}
    (isArray : array.kind = .array) (repeats : Repeats es rest)
    (known : answered (.arrayDimensions array) dims ∈ es) (inBounds : InBounds indices dims)
    (read : answered (.arrayElement array indices) w ∈ es)
    (played : (s.remoteElement (indices.map Expr.indexOperand) array).run.Plays rest r) :
    r = .ok ⟨.remote w, true⟩ := by
  have chosen (operands : List EvalValue) : s.element (.remote array) operands = do
      let e ← elementOfArray array operands
      return (e, true) := by
    obtain ⟨id, kind, typeName⟩ := array
    obtain rfl : kind = .array := isArray
    rfl
  have rank : ¬ (indices.map Expr.indexOperand).length ≠ dims.length := by
    rw [List.length_map]
    exact not_not.mpr inBounds.length_eq
  rw [remoteElement, chosen, bind_assoc, elementOfArray, bind_assoc] at played
  obtain ⟨rest, played, repeats⟩ := Eval.plays_again repeats known rfl played
  rw [if_neg rank, position_of_inBounds inBounds, pure_bind, bind_assoc] at played
  obtain ⟨rest, played, -⟩ := Eval.plays_again repeats read rfl played
  exact (Eval.plays_pure_iff.mp played).2

end EvalScope

end ManagedDebugger
