import ManagedDebugger.Symbol.Document

/-!
# Which documents a path stands for

Paths are compared segment by segment, from the end: a request stands for a document if its segments
are the last ones of the document. The three ways to be the same document come to this one rule,
whatever slashes there are at the ends of the paths or next to each other. Both separators count as
slashes there, and a letter as its lower case.
-/

namespace ManagedDebugger

/-! ## Lower case -/

namespace Text

/-- Neither a separator nor a capital letter. -/
def Lowered (c : Char) : Prop := c ≠ '/' ∧ c ≠ '\\' ∧ c.isUpper = false

instance : DecidablePred Lowered :=
  fun c => inferInstanceAs (Decidable (c ≠ '/' ∧ c ≠ '\\' ∧ c.isUpper = false))

theorem lowered_of_le {c : Char} (beyond : 128 ≤ c.toNat) : Lowered c := by
  refine ⟨?_, ?_, ?_⟩
  · rintro rfl
    exact absurd beyond (by decide)
  · rintro rfl
    exact absurd beyond (by decide)
  · refine decide_eq_false fun upper => ?_
    have last : c.toNat ≤ 'Z'.toNat := upper.2
    exact absurd (Nat.lt_of_le_of_lt last (by decide)) (Nat.not_lt.mpr beyond)

theorem lowered_ofNat {n : Nat} (beyond : 128 ≤ n) : Lowered (Char.ofNat n) := by
  by_cases valid : n.isValidChar
  · have same : Char.ofNat n = Char.ofNatAux n valid := dif_pos valid
    rw [same]
    apply lowered_of_le
    exact beyond
  · have none : Char.ofNat n = '\x00' := dif_neg valid
    rw [none]
    decide

/-- The letters of a run have theirs beyond the first 128 characters, unless the run is of a single
letter. -/
theorem lowered_of_mem_caseRuns {r : CaseRun} (among : r ∈ caseRuns) :
    128 ≤ r.first + r.shift ∨
      r.first = r.last ∧ Lowered (Char.ofNat (r.first + r.shift).toNat) := by
  have all : ∀ r ∈ caseRuns.toList, 128 ≤ r.first + r.shift ∨
      r.first = r.last ∧ Lowered (Char.ofNat (r.first + r.shift).toNat) := by decide +kernel
  exact all r (Array.mem_toList_iff.mpr among)

theorem lowered_of_mem_lowerChar {c d : Char} (beyond : 128 ≤ c.toNat) (among : d ∈ lowerChar c) :
    Lowered d := by
  unfold lowerChar at among
  rw [if_neg (Nat.not_lt.mpr beyond)] at among
  split at among
  · obtain rfl | rfl : d = 'i' ∨ d = Char.ofNat 0x307 := by simpa using among
    · decide
    · decide
  · split at among
    · next r found =>
      obtain rfl := List.mem_singleton.mp among
      have holds := Array.find?_some found
      simp only [CaseRun.holds, Bool.and_eq_true, decide_eq_true_eq] at holds
      rcases lowered_of_mem_caseRuns (Array.mem_of_find?_eq_some found) with far | ⟨single, lowered⟩
      · apply lowered_ofNat
        omega
      · have same : c.toNat = r.first := by omega
        rwa [same]
    · obtain rfl := List.mem_singleton.mp among
      exact lowered_of_le beyond

theorem lowerChar_of_lt {c : Char} (ascii : c.toNat < 128) : lowerChar c = [c.toLower] := by
  simp [lowerChar, ascii]

/-- The first 128 characters, one by one. -/
theorem toLower_of_lt {c : Char} (ascii : c.toNat < 128) :
    c.toLower.isUpper = false ∧ (c.toLower = '/' ↔ c = '/') ∧ (c.toLower = '\\' ↔ c = '\\') := by
  have all : ∀ n < 128, (Char.ofNat n).toLower.isUpper = false ∧
      ((Char.ofNat n).toLower = '/' ↔ Char.ofNat n = '/') ∧
      ((Char.ofNat n).toLower = '\\' ↔ Char.ofNat n = '\\') := by decide +kernel
  have here := all c.toNat ascii
  rwa [Char.ofNat_toNat] at here

/-- No capital letter comes of a character, and a separator only of itself. -/
theorem of_mem_lowerChar {c d : Char} (among : d ∈ lowerChar c) :
    d.isUpper = false ∧ (d = '\\' → c = '\\') := by
  by_cases ascii : c.toNat < 128
  · rw [lowerChar_of_lt ascii] at among
    obtain rfl := List.mem_singleton.mp among
    exact ⟨(toLower_of_lt ascii).1, (toLower_of_lt ascii).2.2.mp⟩
  · obtain ⟨-, plain, small⟩ := lowered_of_mem_lowerChar (Nat.not_lt.mp ascii) among
    exact ⟨small, fun backslash => absurd backslash plain⟩

theorem count_slash_lowerChar (c : Char) :
    (lowerChar c).count '/' = if c = '/' then 1 else 0 := by
  by_cases ascii : c.toNat < 128
  · simp [lowerChar_of_lt ascii, List.count_singleton, (toLower_of_lt ascii).2.1]
  · have other : c ≠ '/' := by
      rintro rfl
      exact ascii (by decide)
    rw [if_neg other]
    apply List.count_eq_zero_of_not_mem
    intro among
    exact (lowered_of_mem_lowerChar (Nat.not_lt.mp ascii) among).1 rfl

/-- Only a capital sigma depends on what is around it. -/
theorem of_mem_lowerCaseAfter {before s : List Char} {d : Char}
    (among : d ∈ lowerCaseAfter before s) :
    d = 'ς' ∨ d = 'σ' ∨ ∃ c ∈ s, d ∈ lowerChar c := by
  induction s generalizing before with
  | nil => cases among
  | cons c rest inductionHypothesis =>
      simp only [lowerCaseAfter, List.mem_append] at among
      rcases among with here | later
      · split at here
        · split at here
          · simp_all
          · simp_all
        · exact Or.inr (Or.inr ⟨c, List.mem_cons_self, here⟩)
      · rcases inductionHypothesis later with sigma | sigma | ⟨c', within, among⟩
        · exact Or.inl sigma
        · exact Or.inr (Or.inl sigma)
        · exact Or.inr (Or.inr ⟨c', List.mem_cons_of_mem c within, among⟩)

theorem count_slash_lowerCaseAfter (before s : List Char) :
    (lowerCaseAfter before s).count '/' = s.count '/' := by
  induction s generalizing before with
  | nil => rfl
  | cons c rest inductionHypothesis =>
      simp only [lowerCaseAfter, List.count_append, inductionHypothesis, List.count_cons]
      by_cases sigma : c = 'Σ'
      · subst sigma
        rw [if_pos rfl]
        split
        · simp
        · simp
      · simp [sigma, count_slash_lowerChar, Nat.add_comm]

theorem lowerCaseAfter_of_ascii (before : List Char) {s : List Char}
    (ascii : ∀ c ∈ s, c.toNat < 128) : lowerCaseAfter before s = s.map Char.toLower := by
  induction s generalizing before with
  | nil => rfl
  | cons c rest inductionHypothesis =>
      obtain ⟨here, others⟩ := List.forall_mem_cons.mp ascii
      have other : c ≠ 'Σ' := by
        rintro rfl
        exact absurd here (by decide)
      rw [lowerCaseAfter, inductionHypothesis (c :: before) others]
      simp [other, lowerChar_of_lt here]

end Text

namespace Document

/-- Neither a backslash nor a capital letter is left. -/
theorem of_mem_normalized {path : String} {d : Char} (among : d ∈ normalized path) :
    d ≠ '\\' ∧ d.isUpper = false := by
  rcases Text.of_mem_lowerCaseAfter among with rfl | rfl | ⟨c, within, among⟩
  · decide
  · decide
  · obtain ⟨small, backslash⟩ := Text.of_mem_lowerChar among
    refine ⟨fun same => ?_, small⟩
    obtain ⟨c', -, replaced⟩ := List.mem_map.mp within
    rw [backslash same] at replaced
    split at replaced
    · cases replaced
    · contradiction

/-- Both separators become slashes, and nothing else does. -/
theorem count_slash_normalized (path : String) :
    (normalized path).count '/' = path.toList.countP fun c => c = '/' ∨ c = '\\' := by
  rw [normalized, Text.lowerCase, Text.count_slash_lowerCaseAfter, List.count, List.countP_map]
  congr 1
  funext c
  by_cases backslash : c = '\\'
  · simp [backslash]
  · simp only [Function.comp_apply, backslash, or_false]
    exact Bool.beq_eq_decide_eq c '/'

/-- Of the first 128 characters, letters become small ones and backslashes slashes. -/
theorem normalized_of_ascii {path : String} (ascii : ∀ c ∈ path.toList, c.toNat < 128) :
    normalized path = path.toList.map fun c => if c = '\\' then '/' else c.toLower := by
  have replaced : ∀ c ∈ path.toList.map fun c => if c = '\\' then '/' else c, c.toNat < 128 := by
    intro c among
    obtain ⟨c', within, rfl⟩ := List.mem_map.mp among
    split
    · decide
    · exact ascii c' within
  rw [normalized, Text.lowerCase, Text.lowerCaseAfter_of_ascii [] replaced, List.map_map]
  congr 1
  funext c
  by_cases backslash : c = '\\'
  · simp [backslash]
  · simp [backslash]

section Separated

variable {α : Type} {sep : α}

theorem intercalate_append {front back : List (List α)} (front_ne_nil : front ≠ [])
    (back_ne_nil : back ≠ []) :
    [sep].intercalate (front ++ back) =
      [sep].intercalate front ++ sep :: [sep].intercalate back := by
  induction front with
  | nil => contradiction
  | cons piece rest inductionHypothesis =>
      by_cases last : rest = []
      · subst last
        simp [List.intercalate_cons_of_ne_nil back_ne_nil]
      · have more : rest ++ back ≠ [] := by simp [back_ne_nil]
        rw [List.cons_append, List.intercalate_cons_of_ne_nil more, inductionHypothesis last,
          List.intercalate_cons_of_ne_nil last]
        simp

/-- The last pieces of a list are those of the list itself, or of what follows a separator. -/
theorem splitOn_suffix_iff [DecidableEq α] {whole part : List α} :
    part.splitOn sep <:+ whole.splitOn sep ↔
      whole = part ∨ ∃ front, whole = front ++ sep :: part := by
  constructor
  · intro suffix
    obtain ⟨pieces, split⟩ := suffix
    have joined : [sep].intercalate (whole.splitOn sep) = whole := List.intercalate_splitOn sep
    rw [← joined, ← split]
    by_cases all : pieces = []
    · subst all
      exact Or.inl (List.intercalate_splitOn sep)
    · apply Or.inr
      refine ⟨[sep].intercalate pieces, ?_⟩
      rw [intercalate_append all (List.splitOn_ne_nil sep part), List.intercalate_splitOn]
  · rintro (rfl | ⟨front, rfl⟩)
    · exact List.suffix_rfl
    · rw [List.splitOn_append_cons_self]
      exact List.suffix_append _ _

end Separated

/-- A path is its own file name, or has it behind a slash. -/
theorem fileName_cases (path : List Char) :
    path = fileName path ∨ ∃ front, path = front ++ '/' :: fileName path := by
  have whole := congrArg List.reverse
    (List.takeWhile_append_dropWhile (p := (· != '/')) (l := path.reverse))
  have stop := List.head?_dropWhile_not (· != '/') path.reverse
  rw [List.reverse_append, List.reverse_reverse] at whole
  cases rest : path.reverse.dropWhile (· != '/') with
  | nil =>
      apply Or.inl
      simpa [rest, fileName] using whole.symm
  | cons slash front =>
      rw [rest] at stop whole
      obtain rfl : slash = '/' := by simpa using stop
      apply Or.inr
      exact ⟨front.reverse, by simpa [fileName] using whole.symm⟩

/-- Either the paths are equal, or the request follows a slash. A bare file name is no third case. -/
theorem same_iff_behind (document requested : String) :
    same document requested = true ↔
      normalized document = normalized requested ∨
        ∃ front, normalized document = front ++ '/' :: normalized requested := by
  simp only [same, Bool.or_eq_true, Bool.and_eq_true, beq_iff_eq, List.isSuffixOf_iff_suffix]
  constructor
  · rintro ((equal | ⟨front, behind⟩) | ⟨-, named⟩)
    · exact Or.inl equal
    · exact Or.inr ⟨front, behind.symm⟩
    · rw [← named]
      exact fileName_cases _
  · rintro (equal | ⟨front, behind⟩)
    · exact Or.inl (Or.inl equal)
    · exact Or.inl (Or.inr ⟨front, behind.symm⟩)

/-- What stands between the slashes of a path, in the form in which paths are compared. -/
def segments (path : String) : List (List Char) := (normalized path).splitOn '/'

theorem slash_not_mem_fileName (path : List Char) : '/' ∉ fileName path := by
  intro slash
  have plain := List.all_eq_true.mp (List.all_takeWhile (p := (· != '/')) (l := path.reverse)) '/'
    (List.mem_reverse.mp slash)
  simp at plain

/-- The last segment is the file name. -/
theorem getLast?_splitOn (path : List Char) :
    (path.splitOn '/').getLast? = some (fileName path) := by
  have single := List.splitOn_eq_singleton (slash_not_mem_fileName path)
  rcases fileName_cases path with whole | ⟨front, behind⟩
  · have split := congrArg (List.splitOn '/') whole
    rw [split, single]
    rfl
  · have split := congrArg (List.splitOn '/') behind
    rw [split, List.splitOn_append_cons_self, single]
    exact List.getLast?_concat

/-- A request stands for the documents that end with its segments. So it is always for the whole name
of a file: where a document ends with the requested text, what is in front has to end with a
slash. -/
theorem same_iff_segments (document requested : String) :
    (same document requested = true ↔ segments requested <:+ segments document) ∧
      (same document requested = true →
        fileName (normalized document) = fileName (normalized requested)) ∧
      ∀ front c, normalized document = front ++ c :: normalized requested →
        (same document requested = true ↔ c = '/') := by
  have bySegments : same document requested = true ↔ segments requested <:+ segments document :=
    (same_iff_behind document requested).trans splitOn_suffix_iff.symm
  refine ⟨bySegments, ?_, ?_⟩
  · intro isSame
    obtain ⟨front, split⟩ := bySegments.mp isSame
    have last := getLast?_splitOn (normalized document)
    rw [← segments, ← split, List.getLast?_append, segments, getLast?_splitOn] at last
    simpa using last.symm
  · intro front c ends
    rw [same_iff_behind, ends]
    constructor
    · rintro (equal | ⟨front', behind⟩)
      · have shorter := congrArg List.length equal
        simp at shorter
        omega
      · obtain ⟨-, tail⟩ := List.append_inj' behind rfl
        exact (List.cons.inj tail).1
    · rintro rfl
      exact Or.inr ⟨front, rfl⟩

example : same "C:\\Src\\Program.cs" "src/program.CS" = true ∧
    same "C:\\Src\\MyProgram.cs" "program.cs" = false := by decide

end Document

end ManagedDebugger
