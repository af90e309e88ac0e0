import Mathlib.Data.List.Nodup
import ManagedDebugger.Proofs.Eval.Snapshot

/-!
# Paging through an array

The indices of a flat position are its digits, with the dimensions as the bases. Counting through
the positions is thus the same as nested loops over the dimensions, the last one innermost. A page is
a stretch of that list of elements, and pages that start where the last one ended are its beginning.
-/

namespace ManagedDebugger

namespace ExpandContext

/-! ## Elements in row-major order -/

/-- The number of elements. -/
def size : List UInt32 → Nat
  | [] => 1
  | d :: dims => d.toNat * size dims

/-- The indices of all elements, by nested loops over the dimensions. -/
def rowMajor : List UInt32 → List (List UInt32)
  | [] => [[]]
  | d :: dims => (List.range d.toNat).flatMap fun i => (rowMajor dims).map (i.toUInt32 :: ·)

/-- The flat position of an element in row-major order. -/
def flatten : List UInt32 → List UInt32 → Nat
  | i :: indices, _ :: dims => i.toNat * size dims + flatten indices dims
  | _, _ => 0

variable {i m n : Nat} {d : UInt32} {dims indices : List UInt32}

@[simp]
theorem size_nil : size [] = 1 := rfl

@[simp]
theorem size_cons : size (d :: dims) = d.toNat * size dims := rfl

@[simp]
theorem size_append (dims dims' : List UInt32) : size (dims ++ dims') = size dims * size dims' := by
  induction dims with
  | nil => simp
  | cons d dims inductionHypothesis => simp [inductionHypothesis, Nat.mul_assoc]

@[simp]
theorem size_reverse (dims : List UInt32) : size dims.reverse = size dims := by
  induction dims with
  | nil => rfl
  | cons d dims inductionHypothesis => simp [inductionHypothesis, Nat.mul_comm]

theorem size_pos_cons : 0 < size (d :: dims) ↔ 0 < d.toNat ∧ 0 < size dims := by
  simp only [size_cons, Nat.pos_iff_ne_zero, ne_eq, Nat.mul_eq_zero, not_or]

theorem toNat_toUInt32 (below : i < d.toNat) : i.toUInt32.toNat = i :=
  UInt32.toNat_ofNat_of_lt' (Nat.lt_trans below d.toNat_lt)

/-! ### Digits of a position -/

/-- The digits of the last dimensions, then the one of the first. -/
theorem indicesFromLast_append (nonempty : 0 < size dims) (n : Nat) :
    indicesFromLast n (dims ++ [d]) =
      indicesFromLast n dims ++ [(n / size dims % max d.toNat 1).toUInt32] := by
  induction dims generalizing n with
  | nil => simp [indicesFromLast]
  | cons e dims inductionHypothesis =>
      obtain ⟨positive, nonempty⟩ := size_pos_cons.mp nonempty
      have base : max e.toNat 1 = e.toNat := Nat.max_eq_left positive
      rw [List.cons_append, indicesFromLast, inductionHypothesis nonempty, indicesFromLast, base,
        Nat.div_div_eq_div_mul, size_cons, List.cons_append]

/-- The digits of the last dimensions do not depend on the first. -/
theorem indicesFromLast_add (nonempty : 0 < size dims) (i m : Nat) :
    indicesFromLast (i * size dims + m) dims = indicesFromLast m dims := by
  induction dims generalizing m with
  | nil => rfl
  | cons d dims inductionHypothesis =>
      obtain ⟨positive, nonempty⟩ := size_pos_cons.mp nonempty
      have base : max d.toNat 1 = d.toNat := Nat.max_eq_left positive
      have split : i * size (d :: dims) + m = m + i * size dims * d.toNat := by
        rw [size_cons, Nat.add_comm, Nat.mul_comm d.toNat, Nat.mul_assoc]
      rw [indicesFromLast, indicesFromLast, base, split, Nat.add_mul_mod_self_right,
        Nat.add_mul_div_right _ _ positive, Nat.add_comm, inductionHypothesis nonempty]

theorem unflatten_cons (first : i < d.toNat) (others : m < size dims) :
    unflatten (i * size dims + m) (d :: dims) = i.toUInt32 :: unflatten m dims := by
  have nonempty : 0 < size dims.reverse := by
    rw [size_reverse]
    omega
  have digit : (i * size dims + m) / size dims % max d.toNat 1 = i := by
    rw [Nat.mul_comm, Nat.mul_add_div (by omega), Nat.div_eq_of_lt others, Nat.add_zero]
    exact Nat.mod_eq_of_lt (by omega)
  have last := indicesFromLast_add nonempty i m
  rw [size_reverse] at last
  rw [unflatten, List.reverse_cons, indicesFromLast_append nonempty, size_reverse, digit, last,
    List.reverse_concat, unflatten]

/-- A position is that of some element of some row. -/
theorem exists_digit (below : n < size (d :: dims)) :
    ∃ i m, i < d.toNat ∧ m < size dims ∧ n = i * size dims + m := by
  have positive : 0 < size (d :: dims) := Nat.zero_lt_of_lt below
  refine ⟨n / size dims, n % size dims, ?_, Nat.mod_lt n (size_pos_cons.mp positive).2, ?_⟩
  · rw [size_cons] at below
    exact Nat.div_lt_of_lt_mul (Nat.mul_comm _ _ ▸ below)
  · exact (Nat.div_add_mod' n (size dims)).symm

/-- Unflattening gives the indices that flatten to the position. -/
theorem flatten_unflatten (below : n < size dims) : flatten (unflatten n dims) dims = n := by
  induction dims generalizing n with
  | nil =>
      rw [size_nil] at below
      exact (Nat.lt_one_iff.mp below).symm
  | cons d dims inductionHypothesis =>
      obtain ⟨i, m, first, others, rfl⟩ := exists_digit below
      rw [unflatten_cons first others, flatten, toNat_toUInt32 first, inductionHypothesis others]

theorem nonempty_of_size_pos (positive : 0 < size dims) : ∀ d ∈ dims, d ≠ 0 := by
  induction dims with
  | nil => exact List.forall_mem_nil _
  | cons d dims inductionHypothesis =>
      obtain ⟨here, there⟩ := size_pos_cons.mp positive
      apply List.forall_mem_cons.mpr ⟨_, inductionHypothesis there⟩
      rintro rfl
      exact Nat.lt_irrefl 0 here

theorem inBounds_of_lt_size (below : n < size dims) : InBounds (unflatten n dims) dims :=
  inBounds_unflatten (nonempty_of_size_pos (Nat.zero_lt_of_lt below)) n

/-! ### All elements -/

/-- Counting to a product is counting in rows. -/
theorem range_mul (rows columns : Nat) : List.range (rows * columns) =
    (List.range rows).flatMap fun i => (List.range columns).map (i * columns + ·) := by
  induction rows with
  | zero => simp
  | succ rows inductionHypothesis =>
      rw [Nat.succ_mul, List.range_add, List.range_succ, List.flatMap_append, inductionHypothesis]
      simp

/-- Nested loops reach the elements in the order of their positions. -/
theorem rowMajor_eq (dims : List UInt32) :
    rowMajor dims = (List.range (size dims)).map (unflatten · dims) := by
  induction dims with
  | nil => rfl
  | cons d dims inductionHypothesis =>
      rw [rowMajor, inductionHypothesis, size_cons, range_mul, List.map_flatMap]
      refine List.flatMap_congr fun i first => ?_
      rw [List.map_map, List.map_map]
      refine List.map_congr_left fun m others => ?_
      exact (unflatten_cons (List.mem_range.mp first) (List.mem_range.mp others)).symm

theorem length_rowMajor (dims : List UInt32) : (rowMajor dims).length = size dims := by
  simp [rowMajor_eq]

theorem mem_rowMajor : indices ∈ rowMajor dims ↔ InBounds indices dims := by
  induction dims generalizing indices with
  | nil => simp [rowMajor, InBounds]
  | cons d dims inductionHypothesis =>
      simp only [rowMajor, List.mem_flatMap, List.mem_range, List.mem_map]
      constructor
      · rintro ⟨i, first, rest, among, rfl⟩
        refine .cons ?_ (inductionHypothesis.mp among)
        rw [toNat_toUInt32 first]
        exact first
      · rintro (_ | ⟨first, others⟩)
        exact ⟨_, first, _, inductionHypothesis.mpr others, by simp⟩

theorem nodup_rowMajor (dims : List UInt32) : (rowMajor dims).Nodup := by
  rw [rowMajor_eq]
  apply List.Nodup.map_on _ List.nodup_range
  intro n below m below' same
  rw [← flatten_unflatten (List.mem_range.mp below), ← flatten_unflatten (List.mem_range.mp below'),
    same]

/-! ### The number of elements, in 64 bits -/

theorem toNat_count (dims : List UInt32) (n : UInt64) :
    (dims.foldl (fun (n : UInt64) d => n * d.toUInt64) n).toNat =
      n.toNat * size dims % UInt64.size := by
  induction dims generalizing n with
  | nil => simp [Nat.mod_eq_of_lt n.toNat_lt]
  | cons d dims inductionHypothesis =>
      rw [List.foldl_cons, inductionHypothesis, UInt64.toNat_mul, UInt32.toNat_toUInt64, size_cons,
        Nat.mod_mul_mod, Nat.mul_assoc]

/-- The product of the dimensions that are not empty. -/
def span (dims : List UInt32) : Nat := size (dims.filter (· ≠ 0))

theorem size_le_span (dims : List UInt32) : size dims ≤ span dims := by
  induction dims with
  | nil => exact Nat.le_refl _
  | cons d dims inductionHypothesis =>
      unfold span
      by_cases empty : d = 0
      · simp [empty]
      · rw [List.filter_cons_of_pos (by simpa using empty), size_cons, size_cons]
        exact Nat.mul_le_mul_left _ inductionHypothesis

theorem elementCount_eq (fits : span dims < UInt64.size) : elementCount dims = size dims := by
  have small := Nat.lt_of_le_of_lt (size_le_span dims) fits
  rw [elementCount, toNat_count, UInt64.toNat_one, Nat.one_mul, Nat.mod_eq_of_lt small]

end ExpandContext

/-! ## Pages -/

namespace Snapshot

open ExpandContext

variable (S : Snapshot) (ctx : ExpandContext) (array : RemoteValue) (parent : String)

/-- How many elements a page may have; a count of zero asks for as many as there may be. -/
def allowed (count : Nat) : Nat :=
  if count = 0 then ctx.config.maxArrayChildren else min count ctx.config.maxArrayChildren

/-- The child that shows an element. -/
def shownElement (indices : List UInt32) : Child :=
  let label := (Expr.Access.element indices).text
  ⟨label, .value (S.element array indices),
    if parent.isEmpty then none else some (parent ++ label)⟩

/-- All elements, in row-major order. -/
def elements : List Child := (rowMajor (S.dimensions array)).map (S.shownElement array parent)

/-- The elements from a position on, as many as are asked for and allowed. -/
def page (start count : Nat) : List Child :=
  ((S.elements array parent).take
    (min (size (S.dimensions array)) (start + allowed ctx count))).drop start

/-- Pages, each from where the one before it ended: how many, where they end and what they list. -/
inductive Pages : Nat → Nat → List Child → Prop
  | none : Pages 0 0 []
  | next {pages stop count : Nat} {listed children : List Child} {es : List (Exchange evalEffect)} :
      Pages pages stop listed →
      (ctx.valueChildren array parent stop count).run.Plays es (.ok children) →
      (∀ x ∈ es, x.Follows S.Shows) →
      Pages (pages + 1) (stop + children.length) (listed ++ children)

variable {S ctx array parent} {start count : Nat}

/-- A page ends with the elements at the latest. -/
theorem pageEnd_le (limit total start count : Nat) : pageEnd limit total start count ≤ total :=
  Nat.min_le_left _ _

theorem length_elements : (S.elements array parent).length = size (S.dimensions array) := by
  simp [elements, length_rowMajor]

/-- The positions that are listed are those of the page. -/
theorem page_eq : S.page ctx array parent start count =
    (List.range' start (pageEnd ctx.config.maxArrayChildren (size (S.dimensions array)) start count
      - start)).map fun n => S.shownElement array parent (unflatten n (S.dimensions array)) := by
  have short := pageEnd_le ctx.config.maxArrayChildren (size (S.dimensions array)) start count
  have page : S.page ctx array parent start count =
      ((S.elements array parent).take (pageEnd ctx.config.maxArrayChildren
        (size (S.dimensions array)) start count)).drop start := by
    simp only [page, pageEnd, allowed]
  rw [page, elements, rowMajor_eq, List.map_map, ← List.map_take, ← List.map_drop,
    List.take_range, Nat.min_eq_left short, List.range_eq_range', List.drop_range']
  simp

theorem settles_elementChild {n : Nat} (below : n < size (S.dimensions array)) :
    (Eval.ofNative (elementChild array parent (S.dimensions array) n)).run.Settles S.Shows
      [answered (.arrayElement array (unflatten n (S.dimensions array)))
        (S.element array (unflatten n (S.dimensions array)))]
      (.ok (S.shownElement array parent (unflatten n (S.dimensions array)))) := by
  rw [elementChild, Eval.ofNative_bind]
  have shown : S.Shows (answered (.arrayElement array (unflatten n (S.dimensions array)))
    (S.element array (unflatten n (S.dimensions array)))) := ⟨inBounds_of_lt_size below, rfl⟩
  exact .run_bind (settles_native shown) (.done _)

/-- The listing of an array asks for the elements of the page, and shows them. -/
theorem settles_arrayChildren (fits : span (S.dimensions array) < UInt64.size) :
    ∃ es, (Eval.ofNative (ctx.arrayChildren array parent start count)).run.Settles S.Shows es
      (.ok (S.page ctx array parent start count)) := by
  have short := pageEnd_le ctx.config.maxArrayChildren (size (S.dimensions array)) start count
  rw [arrayChildren, Eval.ofNative_bind, page_eq]
  have dims : (Eval.native (.arrayDimensions array)).run.Settles S.Shows _
    (.ok (S.dimensions array)) := settles_native rfl
  constructor
  apply dims.run_bind
  rw [Eval.ofNative_mapM, elementCount_eq fits]
  apply Program.Settles.run_mapM
  intro n listed
  apply settles_elementChild
  obtain ⟨k, small, rfl⟩ := List.mem_range'.mp listed
  omega

theorem settles_valueChildren (ctx : ExpandContext) (parent : String) (start count : Nat)
    (isArray : array.kind = .array) (fits : span (S.dimensions array) < UInt64.size) :
    ∃ es, (ctx.valueChildren array parent start count).run.Settles S.Shows es
      (.ok (S.page ctx array parent start count)) := by
  have listing : ctx.valueChildren array parent start count =
      Eval.ofNative (ctx.arrayChildren array parent start count) := by
    simp only [valueChildren, isArray]
  rw [listing]
  exact settles_arrayChildren fits

theorem length_page : (S.page ctx array parent start count).length =
    min (size (S.dimensions array)) (start + allowed ctx count) - start := by
  simp [page, length_elements]

/-- A page from where the listed elements end continues them. -/
theorem take_append_page (inside : start ≤ size (S.dimensions array)) :
    (S.elements array parent).take start ++ S.page ctx array parent start count =
      (S.elements array parent).take (start + (S.page ctx array parent start count).length) := by
  have further : start ≤ min (size (S.dimensions array)) (start + allowed ctx count) := by omega
  have before : (S.elements array parent).take start = ((S.elements array parent).take
      (min (size (S.dimensions array)) (start + allowed ctx count))).take start := by
    rw [List.take_take, Nat.min_eq_left further]
  rw [length_page, page, before, List.take_append_drop, Nat.add_sub_cancel' further]

/-- Pages list a beginning of the elements, and each of them lists one more unless none is left. -/
theorem Pages.lists {pages stop : Nat} {listed : List Child} (isArray : array.kind = .array)
    (limited : 0 < ctx.config.maxArrayChildren) (fits : span (S.dimensions array) < UInt64.size)
    (paged : S.Pages ctx array parent pages stop listed) :
    listed = (S.elements array parent).take stop ∧ stop ≤ size (S.dimensions array) ∧
      min pages (size (S.dimensions array)) ≤ stop := by
  induction paged with
  | none => simp
  | @next pages stop count listed children es _ played follows inductionHypothesis =>
      obtain ⟨rfl, inside, progress⟩ := inductionHypothesis
      obtain ⟨_, settles⟩ := settles_valueChildren ctx parent stop count isArray fits
      obtain ⟨-, shown⟩ := settles.unique played follows
      obtain rfl := Except.ok.inj shown
      refine ⟨take_append_page inside, ?_⟩
      have positive : 0 < allowed ctx count := by
        unfold allowed
        split <;> omega
      rw [length_page]
      omega

end Snapshot

open ExpandContext

/-- With reads of the target succeeding, any page of an array lists the elements from its start on,
as many as are asked for and allowed, in row-major order. Each flat position is that of one element
in this order, so no element is listed twice and none is left out. Pages that each start where the
one before it ended list a beginning of this order, and all of it after at most one page for each
element. -/
theorem pages_rowMajor {S : Snapshot} {ctx : ExpandContext} {array : RemoteValue} (parent : String)
    (isArray : array.kind = .array) (limited : 0 < ctx.config.maxArrayChildren)
    (fits : span (S.dimensions array) < UInt64.size) :
    (∀ start count, ∃ es,
      (ctx.valueChildren array parent start count).run.Settles S.Shows es
        (.ok (S.page ctx array parent start count)) ∧
      ∀ es' r, (ctx.valueChildren array parent start count).run.Plays es' r →
        (∀ x ∈ es', x.Follows S.Shows) →
        es' = es ∧ r = .ok (S.page ctx array parent start count)) ∧
    (∀ n < size (S.dimensions array),
      InBounds (unflatten n (S.dimensions array)) (S.dimensions array) ∧
      flatten (unflatten n (S.dimensions array)) (S.dimensions array) = n ∧
      (rowMajor (S.dimensions array))[n]? = some (unflatten n (S.dimensions array))) ∧
    ((rowMajor (S.dimensions array)).Nodup ∧
      ∀ indices, indices ∈ rowMajor (S.dimensions array) ↔
        InBounds indices (S.dimensions array)) ∧
    ∀ pages stop listed, S.Pages ctx array parent pages stop listed →
      listed = (S.elements array parent).take stop ∧
      (size (S.dimensions array) ≤ pages → listed = S.elements array parent) := by
  refine ⟨?listing, ?positions, ⟨nodup_rowMajor _, fun indices => mem_rowMajor⟩, ?pages⟩
  case listing =>
    intro start count
    obtain ⟨es, settles⟩ := Snapshot.settles_valueChildren ctx parent start count isArray fits
    exact ⟨es, settles, fun es' r played follows => settles.unique played follows⟩
  case positions =>
    intro n below
    refine ⟨inBounds_of_lt_size below, flatten_unflatten below, ?_⟩
    simp [rowMajor_eq, below]
  case pages =>
    intro pages stop listed paged
    obtain ⟨rfl, -, progress⟩ := paged.lists isArray limited fits
    refine ⟨rfl, fun enough => List.take_of_length_le ?_⟩
    rw [Snapshot.length_elements]
    omega

section Matrix

def matrixContext : ExpandContext := ⟨.empty, { maxArrayChildren := 2 }, 1, 0⟩

/-- Six pages that may have two elements each list the six elements of the array. -/
theorem pages_rowMajor_matrix :
    ∃ stop listed, matrixTarget.Pages matrixContext matrix "m" 6 stop listed ∧
      listed.map Child.name = ["[0, 0]", "[0, 1]", "[0, 2]", "[1, 0]", "[1, 1]", "[1, 2]"] := by
  have limited : 0 < matrixContext.config.maxArrayChildren := by decide
  have fits : span (matrixTarget.dimensions matrix) < UInt64.size := by decide
  obtain ⟨listing, -, -, whole⟩ :=
    pages_rowMajor (S := matrixTarget) "m" (rfl : matrix.kind = .array) limited fits
  have paged (pages : Nat) :
      ∃ stop listed, matrixTarget.Pages matrixContext matrix "m" pages stop listed := by
    induction pages with
    | zero => exact ⟨0, [], .none⟩
    | succ pages inductionHypothesis =>
        obtain ⟨stop, listed, paged⟩ := inductionHypothesis
        obtain ⟨es, settles, -⟩ := listing stop 0
        have follows : ∀ x ∈ es, x.Follows matrixTarget.Shows := fun x among =>
          Snapshot.follows_of_shows (settles.known x among)
        exact ⟨_, _, paged.next settles.plays follows⟩
  obtain ⟨stop, listed, six⟩ := paged 6
  refine ⟨stop, listed, six, ?_⟩
  rw [(whole 6 stop listed six).2 (by decide)]
  decide

end Matrix

end ManagedDebugger
