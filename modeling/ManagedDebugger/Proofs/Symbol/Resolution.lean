import Mathlib
import ManagedDebugger.Proofs.Symbol.Contents

/-!
# Where a breakpoint goes

A breakpoint on a line goes to a visible point of a method from the file: to the tightest of those
that cover the line, or else to the nearest of those that start after it. Of points that are equally
good the first is taken, so it matters in which order the methods are gone through exactly if
equally good points belong to two methods.
-/

namespace ManagedDebugger

/-! ## Lists -/

/-- Lists in another order are joined to the same list if at most one of them has elements. -/
theorem flatMap_eq_of_perm {α β : Type} {f : α → List β} {l l' : List α} (perm : l'.Perm l)
    (single : l.Pairwise fun a b => f a = [] ∨ f b = []) : l'.flatMap f = l.flatMap f := by
  induction perm with
  | nil => rfl
  | cons a _ inductionHypothesis =>
      rw [List.flatMap_cons, List.flatMap_cons,
        inductionHypothesis (List.pairwise_cons.mp single).2]
  | swap a b rest =>
      rcases (List.pairwise_cons.mp single).1 b List.mem_cons_self with empty | empty
      · simp [empty]
      · simp [empty]
  | trans _ second first' second' =>
      have between := (second.pairwise_iff Or.symm).mpr single
      rw [first' between, second' single]

section FirstLeast

variable {α κ : Type} [LinearOrder κ] {less : α → α → Bool} {key : α → κ} {l l' : List α} {a b : α}

/-- The first of those elements that have the least key. -/
def FirstLeast (key : α → κ) (l : List α) (a : α) : Prop :=
  ∃ before after, l = before ++ a :: after ∧ (∀ b ∈ before, key a < key b) ∧
    ∀ b ∈ after, key a ≤ key b

namespace FirstLeast

theorem mem (first : FirstLeast key l a) : a ∈ l := by
  obtain ⟨before, after, rfl, -, -⟩ := first
  simp

theorem le (first : FirstLeast key l a) (member : b ∈ l) : key a ≤ key b := by
  obtain ⟨before, after, rfl, earlier, later⟩ := first
  rcases List.mem_append.mp member with early | late
  · exact le_of_lt (earlier b early)
  · rcases List.mem_cons.mp late with rfl | late
    · exact le_refl _
    · exact later b late

theorem unique (first : FirstLeast key l a) (again : FirstLeast key l b) : a = b := by
  have low := first.le again.mem
  have high := again.le first.mem
  obtain ⟨before, after, rfl, earlier, -⟩ := first
  obtain ⟨before', after', same, earlier', -⟩ := again
  rcases List.append_eq_append_iff.mp same with ⟨between, rfl, rest⟩ | ⟨between, rfl, rest⟩
  · cases between with
    | nil => exact (List.cons.inj rest).1
    | cons c between =>
        obtain ⟨rfl, -⟩ := List.cons.inj rest
        exact absurd (earlier' a (by simp)) (not_lt.mpr low)
  · cases between with
    | nil => exact (List.cons.inj rest).1.symm
    | cons c between =>
        obtain ⟨rfl, -⟩ := List.cons.inj rest
        exact absurd (earlier b (by simp)) (not_lt.mpr high)

theorem filter {p : α → Bool} (first : FirstLeast key l a) (holds : p a = true) :
    FirstLeast key (l.filter p) a := by
  obtain ⟨before, after, rfl, earlier, later⟩ := first
  refine ⟨before.filter p, after.filter p, by simp [holds], fun b member => ?_, fun b member => ?_⟩
  · exact earlier b (List.mem_filter.mp member).1
  · exact later b (List.mem_filter.mp member).1

/-- If the first part of a list has a least element, then it has the first one. -/
theorem mem_left (first : FirstLeast key (l ++ l') a) (member : b ∈ l)
    (least : ∀ c ∈ l ++ l', key b ≤ key c) : a ∈ l := by
  have low := least a first.mem
  obtain ⟨before, after, same, earlier, -⟩ := first
  rcases List.append_eq_append_iff.mp same with ⟨between, rfl, -⟩ | ⟨between, rfl, rest⟩
  · exact absurd (earlier b (by simp [member])) (not_lt.mpr low)
  · cases between with
    | nil =>
        rw [List.append_nil] at member
        exact absurd (earlier b member) (not_lt.mpr low)
    | cons c between =>
        obtain ⟨rfl, -⟩ := List.cons.inj rest
        simp

theorem mem_left_filter {p : α → Bool} (first : FirstLeast key ((l ++ l').filter p) a)
    (member : b ∈ l) (holds : p b = true)
    (least : ∀ c ∈ l ++ l', p c = true → key b ≤ key c) : a ∈ l := by
  rw [List.filter_append] at first
  have among : b ∈ l.filter p := List.mem_filter.mpr ⟨member, holds⟩
  have found : a ∈ l.filter p := by
    apply first.mem_left among
    intro c there
    rw [← List.filter_append] at there
    obtain ⟨there, holds⟩ := List.mem_filter.mp there
    exact least c there holds
  exact (List.mem_filter.mp found).1

theorem cons (first : FirstLeast key l a) (above : key a < key b) :
    FirstLeast key (b :: l) a := by
  obtain ⟨before, after, rfl, earlier, later⟩ := first
  exact ⟨b :: before, after, rfl, List.forall_mem_cons.mpr ⟨above, earlier⟩, later⟩

/-- An element that is no less than the one in front of it changes nothing. -/
theorem cons_cons {c : α} (first : FirstLeast key (c :: l) a) (above : key c ≤ key b) :
    FirstLeast key (c :: b :: l) a := by
  obtain ⟨before, after, same, earlier, later⟩ := first
  cases before with
  | nil =>
      obtain ⟨rfl, rfl⟩ := List.cons.inj same
      exact ⟨[], b :: l, rfl, by simp, List.forall_mem_cons.mpr ⟨above, later⟩⟩
  | cons d before =>
      obtain ⟨rfl, rfl⟩ := List.cons.inj same
      obtain ⟨below, earlier⟩ := List.forall_mem_cons.mp earlier
      refine ⟨c :: b :: before, after, rfl, ?_, later⟩
      exact List.forall_mem_cons.mpr
        ⟨below, List.forall_mem_cons.mpr ⟨lt_of_lt_of_le below above, earlier⟩⟩

end FirstLeast

theorem best?_eq_none_iff : best? less l = none ↔ l = [] := by
  cases l <;> simp [best?]

/-- The fold keeps the first of the least as long as the order of the elements is that of their
keys. -/
theorem firstLeast_foldl (kept : α) (decides : ∀ a ∈ kept :: l, ∀ b ∈ kept :: l,
    less a b = true ↔ key a < key b) :
    FirstLeast key (kept :: l) (l.foldl (fun kept b => if less b kept then b else kept) kept) := by
  induction l generalizing kept with
  | nil => exact ⟨[], [], rfl, by simp, by simp⟩
  | cons b rest inductionHypothesis =>
      have smaller := decides b (by simp) kept (by simp)
      rw [List.foldl_cons]
      by_cases below : key b < key kept
      · rw [if_pos (smaller.mpr below)]
        have first := inductionHypothesis b fun a member c member' =>
          decides a (List.mem_cons_of_mem _ member) c (List.mem_cons_of_mem _ member')
        exact first.cons (lt_of_le_of_lt (first.le List.mem_cons_self) below)
      · rw [if_neg (mt smaller.mp below)]
        have among {a : α} (member : a ∈ kept :: rest) : a ∈ kept :: b :: rest := by
          rcases List.mem_cons.mp member with rfl | member
          · simp
          · simp [member]
        have first := inductionHypothesis kept fun a member c member' =>
          decides a (among member) c (among member')
        exact first.cons_cons (not_lt.mp below)

theorem firstLeast_of_best? (decides : ∀ a ∈ l, ∀ b ∈ l, less a b = true ↔ key a < key b)
    (found : best? less l = some a) : FirstLeast key l a := by
  cases l with
  | nil => simp [best?] at found
  | cons b rest =>
      obtain rfl := Option.some.inj found
      exact firstLeast_foldl b decides

end FirstLeast

/-! ## Candidates -/

namespace Candidate

variable {line : UInt32} {a b c : Candidate}

/-- How tightly a point covers a line: whether it starts on another line, the number of lines that
it spans, and its offset. -/
def tightness (line : UInt32) (c : Candidate) : Bool ×ₗ ℕ ×ₗ ℕ :=
  toLex (c.point.startLine != line,
    toLex (c.point.endLine.toNat - c.point.startLine.toNat, c.point.offset.toNat))

/-- How near a point after a line is: its first line, and its offset. -/
def nearness (c : Candidate) : ℕ ×ₗ ℕ := toLex (c.point.startLine.toNat, c.point.offset.toNat)

theorem covers_iff :
    c.covers line = true ↔ c.point.startLine ≤ line ∧ line ≤ c.point.endLine := by
  simp [covers]

/-- No lines are lost in the difference if the point covers a line. -/
theorem span_of_covers (covered : c.covers line = true) :
    (c.point.endLine - c.point.startLine).toNat =
      c.point.endLine.toNat - c.point.startLine.toNat := by
  obtain ⟨above, below⟩ := covers_iff.mp covered
  exact UInt32.toNat_sub_of_le _ _ (UInt32.le_trans above below)

theorem tighter_iff (covered : a.covers line = true) (covered' : b.covers line = true) :
    tighter line a b = true ↔ a.tightness line < b.tightness line := by
  have span := span_of_covers covered
  have span' := span_of_covers covered'
  simp only [tightness, Prod.Lex.toLex_lt_toLex, ← span, ← span', ← UInt32.lt_iff_toNat_lt,
    UInt32.toNat_inj, Bool.lt_iff]
  -- Only between two points that start on the line, or two that do not, do the spans count.
  by_cases starts : (a.point.startLine != line) = (b.point.startLine != line)
  · by_cases same : a.point.endLine - a.point.startLine = b.point.endLine - b.point.startLine
    · simp [tighter, starts, same]
    · simp [tighter, starts, same]
  · cases off : a.point.startLine != line <;> simp_all [tighter]

theorem earlier_iff : earlier a b = true ↔ a.nearness < b.nearness := by
  simp only [nearness, Prod.Lex.toLex_lt_toLex, ← UInt32.lt_iff_toNat_lt, UInt32.toNat_inj]
  by_cases same : a.point.startLine = b.point.startLine
  · simp [earlier, same]
  · simp [earlier, same]

/-- No candidate is better for a line: this one covers it as tightly as any, or none covers it and
this one is as near after it as any. -/
inductive Best (offered : Candidate → Prop) (line : UInt32) (c : Candidate) : Prop where
  | covering (own : offered c) (covered : c.covers line = true)
      (least : ∀ d, offered d → d.covers line = true → c.tightness line ≤ d.tightness line)
  | following (own : offered c) (uncovered : ∀ d, offered d → d.covers line = false)
      (after : c.startsAfter line = true)
      (least : ∀ d, offered d → d.startsAfter line = true → c.nearness ≤ d.nearness)

theorem Best.offered {offered : Candidate → Prop} (best : c.Best offered line) : offered c := by
  cases best with
  | covering own covered least => exact own
  | following own uncovered after least => exact own

theorem Best.placed {offered : Candidate → Prop} (best : c.Best offered line) :
    c.covers line = true ∨ c.startsAfter line = true := by
  cases best with
  | covering own covered least => exact .inl covered
  | following own uncovered after least => exact .inr after

theorem Best.congr {offered offered' : Candidate → Prop} (best : c.Best offered line)
    (same : ∀ d, offered' d ↔ offered d) : c.Best offered' line := by
  obtain rfl : offered' = offered := funext fun d => propext (same d)
  exact best

/-- The candidate that is taken from a list: the first of the best. -/
inductive Taken (l : List Candidate) (line : UInt32) (c : Candidate) : Prop where
  | covering (first : FirstLeast (tightness line) (l.filter (covers line)) c)
  | following (uncovered : l.filter (covers line) = [])
      (first : FirstLeast nearness (l.filter (startsAfter line)) c)

namespace Taken

variable {l l' : List Candidate}

theorem best (taken : Taken l line c) : c.Best (· ∈ l) line := by
  cases taken with
  | covering first =>
      obtain ⟨own, covered⟩ := List.mem_filter.mp first.mem
      apply Best.covering own covered
      intro d member covered'
      exact first.le (List.mem_filter.mpr ⟨member, covered'⟩)
  | following uncovered first =>
      obtain ⟨own, after⟩ := List.mem_filter.mp first.mem
      apply Best.following own
      · intro d member
        simpa using List.filter_eq_nil_iff.mp uncovered d member
      · exact after
      · intro d member after'
        exact first.le (List.mem_filter.mpr ⟨member, after'⟩)

theorem unique (taken : Taken l line a) (again : Taken l line b) : a = b := by
  cases taken with
  | covering first =>
      cases again with
      | covering first' => exact first.unique first'
      | following uncovered _ =>
          rw [uncovered] at first
          exact absurd first.mem List.not_mem_nil
  | following uncovered first =>
      cases again with
      | covering first' =>
          rw [uncovered] at first'
          exact absurd first'.mem List.not_mem_nil
      | following _ first' => exact first.unique first'

theorem filter {p : Candidate → Bool} (taken : Taken l line c) (holds : p c = true) :
    Taken (l.filter p) line c := by
  cases taken with
  | covering first =>
      apply Taken.covering
      rw [List.filter_comm]
      exact first.filter holds
  | following uncovered first =>
      apply Taken.following
      · rw [List.filter_comm, uncovered, List.filter_nil]
      · rw [List.filter_comm]
        exact first.filter holds

/-- If the first part of a list has one of the best, then one of that part is taken. -/
theorem mem_left (taken : Taken (l ++ l') line a) (member : b ∈ l)
    (best : b.Best (· ∈ l ++ l') line) : a ∈ l := by
  cases taken with
  | covering first =>
      cases best with
      | covering _ covered least => exact first.mem_left_filter member covered least
      | following _ uncovered _ _ =>
          obtain ⟨own, covered⟩ := List.mem_filter.mp first.mem
          rw [uncovered a own] at covered
          contradiction
  | following uncovered first =>
      cases best with
      | covering own covered _ =>
          have none := List.filter_eq_nil_iff.mp uncovered b own
          contradiction
      | following _ _ after least => exact first.mem_left_filter member after least

end Taken

end Candidate

/-! ## The candidates of a module -/

/-- The visible points of a method. -/
def MethodSymbols.candidates (m : MethodSymbols) : List Candidate :=
  (m.sequencePoints.filter fun p => !p.isHidden).map fun p => ⟨m.token, p⟩

theorem MethodSymbols.mem_candidates_sorted_iff {m : MethodSymbols} {c : Candidate} :
    c ∈ m.sorted.candidates ↔
      m.token = c.token ∧ c.point ∈ m.sequencePoints ∧ c.point.isHidden = false := by
  obtain ⟨token, point⟩ := c
  simp only [candidates, sorted, List.mem_map, List.mem_filter, List.mem_mergeSort,
    Candidate.mk.injEq, Bool.not_eq_true']
  constructor
  · rintro ⟨p, visible, own, rfl⟩
    exact ⟨own, visible⟩
  · rintro ⟨own, visible⟩
    exact ⟨point, visible, own, rfl⟩

/-- A visible point of a method that comes from the file. -/
def ModuleSymbols.Offers (s : ModuleSymbols) (file : String) (c : Candidate) : Prop :=
  ∃ m ∈ s.methods, Document.same m.document file = true ∧
    m.token = c.token ∧ c.point ∈ m.sequencePoints ∧ c.point.isHidden = false

theorem ModuleSymbols.Offers.perm {s s' : ModuleSymbols} (reordered : s'.methods.Perm s.methods)
    {file : String} (c : Candidate) : s'.Offers file c ↔ s.Offers file c := by
  simp [Offers, reordered.mem_iff]

namespace LoadedModule

variable {loaded : LoadedModule} {s s' : ModuleSymbols} {file : String} {line : UInt32}
  {c : Candidate}

theorem resolve?_eq_none_iff : loaded.resolve? file line = none ↔
    ∀ c ∈ loaded.candidates file, ¬ (c.covers line = true ∨ c.startsAfter line = true) := by
  simp only [resolve?, Option.orElse_eq_orElse, Option.orElse_eq_or, Option.or_eq_none_iff,
    best?_eq_none_iff, List.filter_eq_nil_iff, not_or, ← forall₂_and]

theorem taken_of_resolve? (found : loaded.resolve? file line = some c) :
    Candidate.Taken (loaded.candidates file) line c := by
  simp only [resolve?, Option.orElse_eq_orElse, Option.orElse_eq_or] at found
  cases covering : best? (Candidate.tighter line)
      ((loaded.candidates file).filter (Candidate.covers line)) with
  | some d =>
      rw [covering, Option.some_or] at found
      obtain rfl := Option.some.inj found
      apply Candidate.Taken.covering
      apply firstLeast_of_best? _ covering
      intro a member b member'
      exact Candidate.tighter_iff (List.mem_filter.mp member).2 (List.mem_filter.mp member').2
  | none =>
      rw [covering, Option.none_or] at found
      apply Candidate.Taken.following (best?_eq_none_iff.mp covering)
      exact firstLeast_of_best? (fun _ _ _ _ => Candidate.earlier_iff) found

theorem candidates_ofSymbols (distinct : s.DistinctTokens) (file : String) :
    (ofSymbols s).candidates file =
      (s.methods.filter fun m => Document.same m.document file).flatMap fun m =>
        m.sorted.candidates := by
  unfold candidates
  rw [values_ofSymbols distinct, List.filter_map, List.flatMap_map]
  rfl

theorem mem_candidates_ofSymbols_iff (distinct : s.DistinctTokens) :
    c ∈ (ofSymbols s).candidates file ↔ s.Offers file c := by
  simp only [candidates_ofSymbols distinct, List.mem_flatMap, List.mem_filter,
    MethodSymbols.mem_candidates_sorted_iff, ModuleSymbols.Offers, and_assoc]

/-- What is found is one of the best points of the file. -/
theorem best_of_resolve? (distinct : s.DistinctTokens)
    (found : (ofSymbols s).resolve? file line = some c) : c.Best (s.Offers file) line :=
  (taken_of_resolve? found).best.congr fun _ => (mem_candidates_ofSymbols_iff distinct).symm

theorem resolve?_eq_none_perm (distinct : s.DistinctTokens)
    (reordered : s'.methods.Perm s.methods) (file : String) (line : UInt32) :
    (ofSymbols s').resolve? file line = none ↔ (ofSymbols s).resolve? file line = none := by
  simp only [resolve?_eq_none_iff, mem_candidates_ofSymbols_iff distinct,
    mem_candidates_ofSymbols_iff (distinct.perm reordered), ModuleSymbols.Offers.perm reordered]

/-- Of the points of a single method the same are gone through, in whatever order the methods
are. -/
theorem filter_candidates_perm (distinct : s.DistinctTokens)
    (reordered : s'.methods.Perm s.methods) (token : Token) :
    ((ofSymbols s').candidates file).filter (fun c => c.token = token) =
      ((ofSymbols s).candidates file).filter (fun c => c.token = token) := by
  rw [candidates_ofSymbols distinct, candidates_ofSymbols (distinct.perm reordered),
    List.filter_flatMap, List.filter_flatMap]
  apply flatMap_eq_of_perm (reordered.filter _)
  have other {m : MethodSymbols} (different : m.token ≠ token) :
      m.sorted.candidates.filter (fun c => c.token = token) = [] := by
    apply List.filter_eq_nil_iff.mpr
    intro c member
    simpa [← (MethodSymbols.mem_candidates_sorted_iff.mp member).1] using different
  have apart := (List.pairwise_map.mp distinct).filter fun m => Document.same m.document file
  refine apart.imp fun {a b} different => ?_
  by_cases own : a.token = token
  · exact .inr (other fun own' => different (own.trans own'.symm))
  · exact .inl (other own)

end LoadedModule

namespace SymbolTable

variable {t : SymbolTable} {module : ModuleId} {s s' : ModuleSymbols} {file : String}
  {line : UInt32}

/-- A place is found exactly if a visible point of the file covers the line or starts after it, and
it is that of a point that none is better than. -/
theorem resolve?_best (holds : t.Holds module s) (distinct : s.DistinctTokens) :
    ((t.resolve? module file line).isSome ↔
      ∃ c : Candidate, s.Offers file c ∧ (c.covers line = true ∨ c.startsAfter line = true)) ∧
    ∀ place, t.resolve? module file line = some place →
      ∃ c : Candidate, c.Best (s.Offers file) line ∧ place = c.placeIn module := by
  rw [holds.resolve?]
  constructor
  · rw [Option.isSome_map, Option.isSome_iff_ne_none, Ne, LoadedModule.resolve?_eq_none_iff]
    simp only [LoadedModule.mem_candidates_ofSymbols_iff distinct, not_forall, not_not,
      exists_prop]
  · intro place found
    obtain ⟨c, taken, rfl⟩ := Option.map_eq_some_iff.mp found
    exact ⟨c, LoadedModule.best_of_resolve? distinct taken, rfl⟩

/-- A method with a statement inside another one and a hidden point, and a second method whose
first statement is on the same line as the inner one. -/
def nestedStatements : ModuleSymbols :=
  let hidden : SequencePoint := ⟨8, hiddenLine, hiddenLine, 0, 0⟩
  ⟨[⟨1, "src/A.cs", 20, [⟨0, 5, 9, 1, 2⟩, ⟨4, 6, 6, 5, 9⟩, hidden], none, [], []⟩,
    ⟨2, "src/A.cs", 20, [⟨6, 12, 12, 1, 2⟩, ⟨0, 6, 8, 1, 2⟩], none, [], []⟩,
    ⟨3, "src/B.cs", 20, [⟨0, 6, 6, 1, 2⟩], none, [], []⟩], none⟩

theorem resolve?_best_nested :
    let t := SymbolTable.empty.add ⟨1⟩ nestedStatements
    t.Holds ⟨1⟩ nestedStatements ∧ nestedStatements.DistinctTokens ∧
      t.resolve? ⟨1⟩ "A.cs" 6 = some ⟨⟨⟨1⟩, 1⟩, 4, 6, 6⟩ ∧
      t.resolve? ⟨1⟩ "A.cs" 10 = some ⟨⟨⟨1⟩, 2⟩, 6, 12, 12⟩ ∧
      ∃ c : Candidate, c.Best (nestedStatements.Offers "A.cs") 6 ∧
        ⟨⟨⟨1⟩, 1⟩, 4, 6, 6⟩ = c.placeIn ⟨1⟩ := by
  have holds := holds_add SymbolTable.empty ⟨1⟩ nestedStatements
  have distinct : nestedStatements.DistinctTokens := by decide
  have found : (SymbolTable.empty.add ⟨1⟩ nestedStatements).resolve? ⟨1⟩ "A.cs" 6 =
      some ⟨⟨⟨1⟩, 1⟩, 4, 6, 6⟩ := by cbv
  exact ⟨holds, distinct, found, by cbv, (resolve?_best holds distinct).2 _ found⟩

/-- The method that is gone through first gets the breakpoint if it has one of the best points. -/
theorem resolve?_of_first {m : MethodSymbols} {ms : List MethodSymbols} {c : Candidate}
    (holds : t.Holds module s) (distinct : s.DistinctTokens) (first : s.methods = m :: ms)
    (own : m.token = c.token) (best : c.Best (s.Offers file) line) :
    ∃ place, t.resolve? module file line = some place ∧ place.method.token = c.token := by
  have offered : c ∈ (LoadedModule.ofSymbols s).candidates file :=
    (LoadedModule.mem_candidates_ofSymbols_iff distinct).mpr best.offered
  rw [holds.resolve?]
  cases found : (LoadedModule.ofSymbols s).resolve? file line with
  | none => exact absurd best.placed (LoadedModule.resolve?_eq_none_iff.mp found c offered)
  | some a =>
      refine ⟨a.placeIn module, rfl, ?_⟩
      obtain ⟨owner, listed, matching, token, visible⟩ := best.offered
      obtain rfl : owner = m :=
        distinct.eq_of_token listed (first ▸ List.mem_cons_self) (token.trans own.symm)
      have among : c ∈ owner.sorted.candidates :=
        MethodSymbols.mem_candidates_sorted_iff.mpr ⟨token, visible⟩
      have taken := LoadedModule.taken_of_resolve? found
      have best := best.congr fun d => LoadedModule.mem_candidates_ofSymbols_iff (c := d) distinct
      have front : s.methods.filter (fun m => Document.same m.document file) =
          owner :: ms.filter (fun m => Document.same m.document file) := by
        rw [first]
        exact List.filter_cons_of_pos matching
      rw [LoadedModule.candidates_ofSymbols distinct, front, List.flatMap_cons] at taken best
      have near := MethodSymbols.mem_candidates_sorted_iff.mp (taken.mem_left among best)
      exact near.1.symm.trans own

/-- A breakpoint goes to the same place in whatever order the methods are listed, exactly if no two
methods have points that are among the best. -/
theorem resolve?_reordered_iff (distinct : s.DistinctTokens) (t : SymbolTable) (module : ModuleId)
    (file : String) (line : UInt32) :
    (∀ s' : ModuleSymbols, s'.methods.Perm s.methods →
      (t.add module s').resolve? module file line = (t.add module s).resolve? module file line) ↔
    ∀ c d : Candidate, c.Best (s.Offers file) line → d.Best (s.Offers file) line →
      c.token = d.token := by
  constructor
  · intro same c d best best'
    -- Whichever of the two methods is listed first gets the breakpoint.
    have ahead {c : Candidate} (best : c.Best (s.Offers file) line) :
        ∃ place, (t.add module s).resolve? module file line = some place ∧
          place.method.token = c.token := by
      obtain ⟨m, listed, -, own, -⟩ := best.offered
      let s' : ModuleSymbols := { s with methods := m :: s.methods.erase m }
      have reordered : s'.methods.Perm s.methods := (List.perm_cons_erase listed).symm
      have best := best.congr (ModuleSymbols.Offers.perm reordered)
      rw [← same s' reordered]
      exact resolve?_of_first (holds_add t module s') (distinct.perm reordered) rfl own best
    obtain ⟨place, found, own⟩ := ahead best
    obtain ⟨place', found', own'⟩ := ahead best'
    obtain rfl := Option.some.inj (found.symm.trans found')
    exact own.symm.trans own'
  · intro alike s' reordered
    have distinct' := distinct.perm reordered
    have placed := LoadedModule.resolve?_eq_none_perm distinct reordered file line
    rw [(holds_add t module s').resolve?, (holds_add t module s).resolve?]
    cases found : (LoadedModule.ofSymbols s).resolve? file line with
    | none => rw [placed.mpr found]
    | some c =>
        obtain ⟨d, found'⟩ := Option.ne_none_iff_exists'.mp
          (mt placed.mp (Option.ne_none_iff_exists'.mpr ⟨c, found⟩))
        have best := LoadedModule.best_of_resolve? distinct found
        have best' := (LoadedModule.best_of_resolve? distinct' found').congr fun e =>
          (ModuleSymbols.Offers.perm reordered e).symm
        -- Both are the first of the best among the points of one method.
        have taken := (LoadedModule.taken_of_resolve? found).filter
          (p := fun e => e.token = c.token) (by simp)
        have taken' := (LoadedModule.taken_of_resolve? found').filter
          (p := fun e => e.token = c.token) (by simp [alike d c best' best])
        rw [LoadedModule.filter_candidates_perm distinct reordered] at taken'
        rw [found', taken'.unique taken]

section Tied

/-- A method, and a function inside it that starts on the same line. -/
def nestedFunction : ModuleSymbols :=
  ⟨[⟨1, "A.cs", 8, [⟨0, 5, 7, 1, 2⟩], none, [], []⟩,
    ⟨2, "A.cs", 8, [⟨0, 5, 5, 9, 20⟩], none, [], []⟩], none⟩

/-- The same methods, the inner one first. -/
def nestedFunctionFirst : ModuleSymbols := { nestedFunction with
  methods := nestedFunction.methods.reverse }

/-- Another order of the methods, another method and another last line. -/
theorem resolve?_nestedFunction :
    nestedFunction.DistinctTokens ∧ nestedFunctionFirst.methods.Perm nestedFunction.methods ∧
      (SymbolTable.empty.add ⟨1⟩ nestedFunction).resolve? ⟨1⟩ "A.cs" 4 =
        some ⟨⟨⟨1⟩, 1⟩, 0, 5, 7⟩ ∧
      (SymbolTable.empty.add ⟨1⟩ nestedFunctionFirst).resolve? ⟨1⟩ "A.cs" 4 =
        some ⟨⟨⟨1⟩, 2⟩, 0, 5, 5⟩ :=
  ⟨by decide, List.reverse_perm _, by decide +kernel, by decide +kernel⟩

/-- So points of two methods are among the best. -/
theorem best_nestedFunction :
    nestedFunction.DistinctTokens ∧
      ¬ ∀ c d : Candidate, c.Best (nestedFunction.Offers "A.cs") 4 →
        d.Best (nestedFunction.Offers "A.cs") 4 → c.token = d.token := by
  have distinct : nestedFunction.DistinctTokens := by decide
  refine ⟨distinct, fun alike => ?_⟩
  have same := (resolve?_reordered_iff distinct SymbolTable.empty ⟨1⟩ "A.cs" 4).mpr alike
    nestedFunctionFirst (List.reverse_perm _)
  have different : (SymbolTable.empty.add ⟨1⟩ nestedFunctionFirst).resolve? ⟨1⟩ "A.cs" 4 ≠
      (SymbolTable.empty.add ⟨1⟩ nestedFunction).resolve? ⟨1⟩ "A.cs" 4 := by decide +kernel
  exact different same

end Tied

end SymbolTable

end ManagedDebugger
