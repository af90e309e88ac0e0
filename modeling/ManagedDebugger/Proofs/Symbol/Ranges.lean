import ManagedDebugger.Proofs.Symbol.Resolution

/-!
# Ranges of code

The points of a method divide its code: what precedes the first one is a range of its own, and each
point has the code up to the next one, the last one up to the end. The source of a place, the range
that a step covers and the place of a breakpoint are three views of this division, and agree. They
do so for points listed in any order, as each has an offset of its own.
-/

namespace ManagedDebugger

/-- The offset belongs to a range of code. -/
def Within (offset : UInt32) (range : UInt32 × UInt32) : Prop :=
  range.1 ≤ offset ∧ offset < range.2

namespace MethodSymbols

variable {m : MethodSymbols} {offset other : UInt32} {range : UInt32 × UInt32} {p : SequencePoint}
  {before after : List SequencePoint}

/-! ## A division of the points -/

/-- There are points, each at an offset of its own in the code. -/
structure Spaced (m : MethodSymbols) : Prop where
  nonempty : m.sequencePoints ≠ []
  distinct : (m.sequencePoints.map (·.offset)).Nodup
  inside : ∀ p ∈ m.sequencePoints, p.offset < m.codeSize

instance (m : MethodSymbols) : Decidable m.Spaced :=
  decidable_of_iff (m.sequencePoints ≠ [] ∧ (m.sequencePoints.map (·.offset)).Nodup ∧
      ∀ p ∈ m.sequencePoints, p.offset < m.codeSize)
    ⟨fun ⟨nonempty, distinct, inside⟩ => ⟨nonempty, distinct, inside⟩,
      fun ⟨nonempty, distinct, inside⟩ => ⟨nonempty, distinct, inside⟩⟩

/-- Each point starts after the one before it. -/
def Ordered (m : MethodSymbols) : Prop :=
  m.sequencePoints.Pairwise fun p q => p.offset < q.offset

theorem Spaced.ordered_sorted (spaced : m.Spaced) : m.sorted.Ordered := by
  have perm := List.mergeSort_perm m.sequencePoints fun a b => a.offset ≤ b.offset
  have distinct : (m.sorted.sequencePoints.map (·.offset)).Nodup :=
    (perm.map _).nodup_iff.mpr spaced.distinct
  have sorted : m.sorted.sequencePoints.Pairwise fun p q => p.offset ≤ q.offset := by
    have pairwise : m.sorted.sequencePoints.Pairwise fun p q =>
        decide (p.offset ≤ q.offset) = true := by
      apply List.pairwise_mergeSort
      · intro a b c
        simpa using UInt32.le_trans
      · intro a b
        simpa using UInt32.le_total a.offset b.offset
    exact pairwise.imp of_decide_eq_true
  apply (sorted.and (List.pairwise_map.mp distinct)).imp
  intro p q apart
  exact UInt32.lt_of_le_of_ne apart.1 apart.2

theorem mem_sorted_iff : p ∈ m.sorted.sequencePoints ↔ p ∈ m.sequencePoints :=
  List.mem_mergeSort

/-- The points that have been reached at an offset, and those that are still ahead. -/
structure Divides (m : MethodSymbols) (offset : UInt32) (before after : List SequencePoint) :
    Prop where
  whole : m.sequencePoints = before ++ after
  reached : ∀ p ∈ before, p.offset ≤ offset
  ahead : ∀ p ∈ after, offset < p.offset

theorem Ordered.divides (ordered : m.Ordered) (offset : UInt32) :
    ∃ before after, m.Divides offset before after := by
  refine ⟨_, _, List.takeWhile_append_dropWhile (p := fun p => p.offset ≤ offset).symm, ?_, ?_⟩
  · intro p member
    simpa using List.all_eq_true.mp List.all_takeWhile p member
  · cases rest : m.sequencePoints.dropWhile fun p => p.offset ≤ offset with
    | nil => simp
    | cons first later =>
        have above : offset < first.offset := by
          have head := List.head?_dropWhile_not (fun p => decide (p.offset ≤ offset))
            m.sequencePoints
          simpa [rest] using head
        have tail : (first :: later).Pairwise fun p q => p.offset < q.offset :=
          rest ▸ ordered.sublist (List.dropWhile_sublist _)
        intro p member
        rcases List.mem_cons.mp member with rfl | member
        · exact above
        · exact UInt32.lt_trans above ((List.pairwise_cons.mp tail).1 p member)

namespace Divides

theorem pointAt? (divides : m.Divides offset before after) :
    m.pointAt? offset = before.getLast? := by
  have none : after.takeWhile (fun p => p.offset ≤ offset) = [] := by
    cases after with
    | nil => rfl
    | cons p rest => exact List.takeWhile_cons_of_neg (by simpa using divides.ahead p (by simp))
  rw [MethodSymbols.pointAt?, divides.whole, List.takeWhile_append_of_pos, none, List.append_nil]
  simpa using divides.reached

theorem pointAfter? (divides : m.Divides offset before after) :
    m.pointAfter? offset = after.head? := by
  have all : after.dropWhile (fun p => p.offset ≤ offset) = after := by
    cases after with
    | nil => rfl
    | cons p rest => exact List.dropWhile_cons_of_neg (by simpa using divides.ahead p (by simp))
  rw [MethodSymbols.pointAfter?, divides.whole, List.dropWhile_append_of_pos, all]
  simpa using divides.reached

/-- The range in between: from the last point that has been reached, or the beginning, to the first
one ahead, or the end. -/
theorem rangeAt? (divides : m.Divides offset before after) (nonempty : m.sequencePoints ≠ []) :
    m.rangeAt? offset = some ((before.getLast?.map (·.offset)).getD 0,
      (after.head?.map (·.offset)).getD m.codeSize) := by
  rw [MethodSymbols.rangeAt?, divides.pointAt?, divides.pointAfter?]
  cases after with
  | cons q rest => cases before.getLast? <;> rfl
  | nil =>
      cases reached : before.getLast? with
      | some p => rfl
      | none =>
          obtain rfl := List.getLast?_eq_none_iff.mp reached
          exact absurd divides.whole nonempty

/-- In the whole range the same points have been reached. -/
theorem move (divides : m.Divides offset before after) (ordered : m.Ordered)
    (within : Within other ((before.getLast?.map (·.offset)).getD 0,
      (after.head?.map (·.offset)).getD m.codeSize)) : m.Divides other before after := by
  rw [Ordered, divides.whole, List.pairwise_append] at ordered
  obtain ⟨reached, ahead, -⟩ := ordered
  refine ⟨divides.whole, fun p member => ?_, fun p member => ?_⟩
  · rcases List.eq_nil_or_concat' before with rfl | ⟨earlier, last, rfl⟩
    · cases member
    · have start : last.offset ≤ other := by simpa using within.1
      rcases List.mem_append.mp member with early | own
      · have below := (List.pairwise_append.mp reached).2.2 p early last List.mem_cons_self
        exact UInt32.le_trans (UInt32.le_of_lt below) start
      · rw [List.mem_singleton.mp own]
        exact start
  · cases after with
    | nil => cases member
    | cons first later =>
        have stop : other < first.offset := by simpa using within.2
        rcases List.mem_cons.mp member with rfl | member
        · exact stop
        · exact UInt32.lt_trans stop ((List.pairwise_cons.mp ahead).1 p member)

end Divides

/-! ## Ranges and the source -/

theorem offset_le_of_pointAt? (found : m.pointAt? offset = some p) : p.offset ≤ offset := by
  have among := List.mem_of_getLast? found
  exact of_decide_eq_true (List.all_eq_true.mp List.all_takeWhile p among)

theorem lt_offset_of_pointAfter? (found : m.pointAfter? offset = some p) : offset < p.offset := by
  have after := List.head?_dropWhile_not (fun q : SequencePoint => decide (q.offset ≤ offset))
    m.sequencePoints
  rw [show (m.sequencePoints.dropWhile (·.offset ≤ offset)).head? = some p from found] at after
  exact UInt32.not_le.mp (of_decide_eq_false after)

/-- The offset lies in its range, if it lies in the code at all. -/
theorem mem_rangeAt? {start stop : UInt32} (range : m.rangeAt? offset = some (start, stop)) :
    start ≤ offset ∧ (offset < m.codeSize → offset < stop) := by
  unfold rangeAt? at range
  split at range
  case h_1 p next here after =>
    cases range
    exact ⟨offset_le_of_pointAt? here, fun _ => lt_offset_of_pointAfter? after⟩
  case h_2 p here _ =>
    cases range
    exact ⟨offset_le_of_pointAt? here, id⟩
  case h_3 first _ after =>
    cases range
    exact ⟨UInt32.zero_le, fun _ => lt_offset_of_pointAfter? after⟩
  case h_4 => cases range

/-- All offsets of a range have that range and the same source. -/
theorem Ordered.alike (ordered : m.Ordered) (nonempty : m.sequencePoints ≠ [])
    (found : m.rangeAt? offset = some range) (within : Within other range) :
    m.rangeAt? other = some range ∧ m.locationAt? other = m.locationAt? offset := by
  obtain ⟨before, after, divides⟩ := ordered.divides offset
  have own := divides.rangeAt? nonempty
  obtain rfl := Option.some.inj (found.symm.trans own)
  have moved := divides.move ordered within
  refine ⟨moved.rangeAt? nonempty, ?_⟩
  rw [locationAt?, locationAt?, moved.pointAt?, divides.pointAt?]

/-- A point is in effect at its own offset. -/
theorem Ordered.divides_offset (ordered : m.Ordered) (member : p ∈ m.sequencePoints) :
    ∃ before after, m.Divides p.offset (before ++ [p]) after := by
  obtain ⟨before, after, whole⟩ := List.append_of_mem member
  rw [Ordered, whole, List.pairwise_append] at ordered
  obtain ⟨-, later, earlier⟩ := ordered
  refine ⟨before, after, ?_, fun q reached => ?_, (List.pairwise_cons.mp later).1⟩
  · rw [whole, List.append_assoc]
    rfl
  · rcases List.mem_append.mp reached with early | own
    · exact UInt32.le_of_lt (earlier q early p List.mem_cons_self)
    · rw [List.mem_singleton.mp own]
      exact UInt32.le_refl _

/-- Where a visible point starts, so does the range, and the source is that of the point. -/
theorem Ordered.at_offset (ordered : m.Ordered) (member : p ∈ m.sequencePoints)
    (visible : p.isHidden = false) :
    (∃ stop, m.rangeAt? p.offset = some (p.offset, stop)) ∧
      m.locationAt? p.offset =
        some ⟨m.document, p.startLine, p.endLine, p.startColumn, p.endColumn⟩ := by
  obtain ⟨before, after, divides⟩ := ordered.divides_offset member
  have own := divides.rangeAt? (List.ne_nil_of_mem member)
  rw [List.getLast?_concat] at own
  refine ⟨⟨_, own⟩, ?_⟩
  simp [locationAt?, divides.pointAt?, visible]

end MethodSymbols

namespace SymbolTable

variable {t : SymbolTable} {module : ModuleId} {s : ModuleSymbols} {m : MethodSymbols}
  {file : String} {line : UInt32} {place : ResolvedBreakpoint}

/-- A breakpoint goes to a visible point of the method that it is reported for. -/
theorem Holds.point_of_resolve? (holds : t.Holds module s)
    (found : t.resolve? module file line = some place) :
    ∃ m p, s.method? place.method.token = some m ∧ p ∈ m.sequencePoints ∧ p.isHidden = false ∧
      place.offset = p.offset ∧ place.line = p.startLine ∧ place.endLine = p.endLine := by
  rw [holds.resolve?] at found
  obtain ⟨c, taken, rfl⟩ := Option.map_eq_some_iff.mp found
  have offered := (LoadedModule.taken_of_resolve? taken).best.offered
  obtain ⟨stored, known, visible⟩ := List.mem_flatMap.mp offered
  obtain ⟨m, listed, rfl⟩ :=
    LoadedModule.mem_values_ofSymbols_iff.mp (List.mem_filter.mp known).1
  obtain ⟨own, member, visible⟩ := MethodSymbols.mem_candidates_sorted_iff.mp visible
  refine ⟨m, c.point, ?_, member, visible, rfl, rfl, rfl⟩
  rw [Candidate.placeIn, ← own]
  exact listed

/-- The ranges of a method divide its code, the source is the same in all of a range, and a
breakpoint is at the start of its range and has the lines of the source there. -/
theorem ranges_divide (holds : t.Holds module s) (listed : s.method? m.token = some m)
    (spaced : m.Spaced) :
    let method : MethodRef := ⟨module, m.token⟩
    (∀ offset, offset < m.codeSize →
      ∃ range, t.range? method offset = some range ∧ Within offset range) ∧
    (∀ offset offset' range range', t.range? method offset = some range →
      t.range? method offset' = some range' →
        range = range' ∨ ∀ other, ¬ (Within other range ∧ Within other range')) ∧
    (∀ offset range, t.range? method offset = some range →
      ∀ other, Within other range → t.location? method other = t.location? method offset) ∧
    ∀ file line place, t.resolve? module file line = some place → place.method = method →
      (∃ stop, t.range? method place.offset = some (place.offset, stop)) ∧
        ∃ location, t.location? method place.offset = some location ∧
          location.line = place.line ∧ location.endLine = place.endLine := by
  intro method
  have known : t.method? method = some m.sorted := by rw [holds.method?, listed]; rfl
  have ordered := spaced.ordered_sorted
  have nonempty : m.sorted.sequencePoints ≠ [] := by
    obtain ⟨p, member⟩ := List.exists_mem_of_ne_nil _ spaced.nonempty
    exact List.ne_nil_of_mem (MethodSymbols.mem_sorted_iff.mpr member)
  simp only [range?, location?, known, Option.bind_some]
  refine ⟨fun offset inside => ?_, fun offset offset' range range' found found' => ?_,
    fun offset range found other within => ?_, fun file line place found own => ?_⟩
  · obtain ⟨before, after, divides⟩ := ordered.divides offset
    have found := divides.rangeAt? nonempty
    obtain ⟨start, stop⟩ := MethodSymbols.mem_rangeAt? found
    exact ⟨_, found, start, stop inside⟩
  · by_cases shared : ∃ other, Within other range ∧ Within other range'
    · obtain ⟨other, within, within'⟩ := shared
      have here := (ordered.alike nonempty found within).1
      have there := (ordered.alike nonempty found' within').1
      exact .inl (Option.some.inj (here.symm.trans there))
    · exact .inr (not_exists.mp shared)
  · exact (ordered.alike nonempty found within).2
  · obtain ⟨m', p, listed', member, visible, offset, first, last⟩ := holds.point_of_resolve? found
    rw [own] at listed'
    obtain rfl := Option.some.inj (listed'.symm.trans listed)
    obtain ⟨start, source⟩ :=
      ordered.at_offset (MethodSymbols.mem_sorted_iff.mpr member) visible
    rw [offset]
    exact ⟨start, _, source, first.symm, last.symm⟩

/-- A method with a prolog and a hidden point, its points in no order. -/
def scatteredPoints : MethodSymbols :=
  ⟨1, "src/A.cs", 40, [⟨24, 14, 14, 9, 30⟩, ⟨4, 10, 10, 9, 30⟩,
    ⟨20, hiddenLine, hiddenLine, 0, 0⟩, ⟨8, 11, 12, 9, 30⟩], none, [], []⟩

theorem ranges_divide_scattered :
    let s : ModuleSymbols := ⟨[scatteredPoints], none⟩
    let t := SymbolTable.empty.add ⟨1⟩ s
    t.Holds ⟨1⟩ s ∧ s.method? scatteredPoints.token = some scatteredPoints ∧
      scatteredPoints.Spaced ∧ t.range? ⟨⟨1⟩, 1⟩ 10 = some (8, 20) ∧
      (∀ other, Within other (8, 20) →
        t.location? ⟨⟨1⟩, 1⟩ other = some ⟨"src/A.cs", 11, 12, 9, 30⟩) ∧
      t.resolve? ⟨1⟩ "A.cs" 13 = some ⟨⟨⟨1⟩, 1⟩, 24, 14, 14⟩ ∧
      ∃ stop, t.range? ⟨⟨1⟩, 1⟩ 24 = some (24, stop) := by
  intro s t
  have holds : t.Holds ⟨1⟩ s := holds_add .empty ⟨1⟩ s
  have listed : s.method? scatteredPoints.token = some scatteredPoints := by decide
  have spaced : scatteredPoints.Spaced := by decide
  have range : t.range? ⟨⟨1⟩, 1⟩ 10 = some (8, 20) := by cbv
  have source : t.location? ⟨⟨1⟩, 1⟩ 10 = some ⟨"src/A.cs", 11, 12, 9, 30⟩ := by cbv
  have place : t.resolve? ⟨1⟩ "A.cs" 13 = some ⟨⟨⟨1⟩, 1⟩, 24, 14, 14⟩ := by cbv
  obtain ⟨-, -, alike, starts⟩ := ranges_divide holds listed spaced
  refine ⟨holds, listed, spaced, range, fun other within => ?_, place, ?_⟩
  · exact (alike 10 (8, 20) range other within).trans source
  · exact (starts "A.cs" 13 _ place rfl).1

end SymbolTable

end ManagedDebugger
