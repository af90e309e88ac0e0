import ManagedDebugger.Proofs.Text.Reading

/-!
# Readers with more text behind their input

What does a reader make of a text when something is put behind it? Where it comes to an end inside
the text, it comes to the same, unless it looks at the end of the text to decide. A reader is
*closed* if it always does. Most readers of names, literals and brackets are, for what comes next
cannot go on with what they have read. A reader that is not closed may read on over the seam, but
only if it has read the whole text before: it then *matches*, and if a bracket is still open, it
fails in both cases.

The two readers that are compared need not be the same: they may be one reader with different
numbers of brackets left to open.
-/

namespace ManagedDebugger.Text.Scan

variable {α β ι : Type}

/-- What may be put behind: it starts with a dot or a bracket, and has no quotes. -/
structure Seam (t : List Char) : Prop where
  start : ∃ c more, t = c :: more ∧ (c = '.' ∨ c = '[')
  unquoted : ∀ c ∈ t, c ≠ '"' ∧ c ≠ '\''

theorem Seam.ne_nil {t : List Char} (seam : Seam t) : t ≠ [] := by
  obtain ⟨c, more, rfl, -⟩ := seam.start
  exact List.cons_ne_nil c more

theorem Seam.head_not_mem {t lead : List Char} (seam : Seam t)
    (plain : '.' ∉ lead ∧ '[' ∉ lead) : ∀ c ∈ t.head?, c ∉ lead := by
  obtain ⟨c, more, rfl, starts⟩ := seam.start
  intro d isHead
  obtain rfl := Option.some.inj isHead
  rcases starts with rfl | rfl
  · exact plain.1
  · exact plain.2

/-- With `t` behind it a text is read as before, and `t` is left with the rest. -/
def Same (t : List Char) (p p' : Scan α) (u : List Char) : Prop :=
  p' (u ++ t) = (p u).map fun x => (x.1, x.2 ++ t)

namespace Same

variable {t u : List Char} {p p' q q' : Scan α} {f f' : α → Scan β}

theorem of_none (failed : p u = none) (failed' : p' (u ++ t) = none) : Same t p p' u := by
  rw [Same, failed, failed']
  rfl

theorem of_some {a : α} {r : List Char} (read : p u = some (a, r))
    (read' : p' (u ++ t) = some (a, r ++ t)) : Same t p p' u := by
  rw [Same, read, read']
  rfl

protected theorem none (same : Same t p p' u) (failed : p u = none) :
    p' (u ++ t) = Option.none := by
  rw [same, failed]
  rfl

protected theorem some (same : Same t p p' u) {a : α} {r : List Char}
    (read : p u = Option.some (a, r)) : p' (u ++ t) = Option.some (a, r ++ t) := by
  rw [same, read]
  rfl

protected theorem pure (a : α) (u : List Char) : Same t (pure a : Scan α) (pure a) u := rfl

protected theorem ofOption (o : Option α) (u : List Char) : Same t (ofOption o) (ofOption o) u := by
  cases o <;> rfl

protected theorem bind (first : Same t p p' u)
    (second : ∀ a r, p u = Option.some (a, r) → Same t (f a) (f' a) r) :
    Same t (p >>= f) (p' >>= f') u := by
  cases found : p u with
  | none => exact of_none (bind_of_none found) (bind_of_none (first.none found))
  | some x =>
      have rest := second x.1 x.2 found
      rw [Same, bind_of_some found, bind_of_some (first.some found)]
      exact rest

protected theorem orElse (first : Same t p p' u) (second : Same t q q' u) :
    Same t (p <|> q) (p' <|> q') u := by
  cases found : p u with
  | none =>
      rw [Same, orElse_of_none found, orElse_of_none (first.none found)]
      exact second
  | some x => exact of_some (orElse_of_some found) (orElse_of_some (first.some found))

protected theorem ahead (same : Same t p p' u) : Same t (ahead p) (ahead p') u := by
  rw [Same, ahead, ahead, same, Option.map_map, Option.map_map]
  rfl

protected theorem blanks (seam : Seam t) (u : List Char) : Same t blanks blanks u := by
  obtain ⟨c, more, rfl, starts⟩ := seam.start
  have shown : isBlank c = false := by
    rcases starts with rfl | rfl <;> decide
  exact congrArg (fun r => Option.some ((), r)) (skipBlanks_append shown u)

protected theorem satisfy {accepts : Char → Bool} (nonempty : u ≠ []) :
    Same t (satisfy accepts) (satisfy accepts) u := by
  cases u with
  | nil => exact absurd rfl nonempty
  | cons c u =>
      rw [Same, List.cons_append, satisfy, satisfy]
      split <;> rfl

theorem after?_append {lead : List Char} (other : ∀ c ∈ t.head?, c ∉ lead) (u : List Char) :
    after? lead (u ++ t) = (after? lead u).map (· ++ t) := by
  induction lead generalizing u with
  | nil => rfl
  | cons c lead inductionHypothesis =>
      cases u with
      | nil =>
          cases t with
          | nil => rfl
          | cons d more =>
              have different : c ≠ d := fun same => other d rfl (same ▸ List.mem_cons_self)
              rw [List.nil_append, after?, if_neg different]
              rfl
      | cons d u =>
          rw [List.cons_append, after?, after?]
          split
          · refine inductionHypothesis ?_ u
            exact fun e isHead isElement => other e isHead (List.mem_cons_of_mem c isElement)
          · rfl

/-- A text that ends before the word does goes on with a character that is not in the word. -/
protected theorem exactly {text : String} (other : ∀ c ∈ t.head?, c ∉ text.toList)
    (u : List Char) : Same t (exactly text) (exactly text) u := by
  rw [Same, exactly, exactly, after?_append other u, Option.map_map, Option.map_map]
  rfl

/-- A text that does not end before the word does. -/
theorem exactly_inside {text : String}
    (inside : ∀ v, u ++ v = text.toList → v = []) :
    Same t (exactly text) (exactly text) u := by
  cases found : exactly text u with
  | some x =>
      refine of_some (a := ()) found ?_
      rw [exactly_eq_some_iff, exactly_eq_some_iff.mp found, List.append_assoc]
  | none =>
      refine of_none found ?_
      cases found' : exactly text (u ++ t) with
      | none => rfl
      | some x =>
          obtain ⟨⟨⟩, r⟩ := x
          rw [exactly_eq_some_iff] at found'
          rcases List.append_eq_append_iff.mp found' with ⟨v, same, -⟩ | ⟨v, same, -⟩
          · obtain rfl := inside v same.symm
            rw [List.append_nil] at same
            rw [exactly_eq_some_iff (r := []) |>.mpr (by rw [same, List.append_nil])] at found
            cases found
          · rw [exactly_eq_some_iff.mpr same] at found
            cases found

protected theorem padded (seam : Seam t) (same : Same t p p' (skipBlanks u)) :
    Same t (padded p) (padded p') u := by
  refine (Same.blanks seam u).bind fun a r read => ?_
  obtain ⟨-, rfl⟩ := Prod.mk.inj (Option.some.inj read)
  exact same.bind fun a r _ => (Same.blanks seam r).bind fun _ r _ => .pure a r

/-- A symbol of one character, in front of which the text does not come to an end. -/
protected theorem symbol_single {text : String} {c : Char} (seam : Seam t)
    (spelled : text.toList = [c]) (nonblank : ¬ Blank u) :
    Same t (symbol text) (symbol text) u := by
  refine .padded seam (exactly_inside fun v agree => ?_)
  obtain nothing | ⟨d, r, same, -⟩ := skipBlanks_cases u
  · exact absurd (skipBlanks_eq_nil_iff.mp nothing) nonblank
  · rw [same, spelled, List.cons_append, List.cons.injEq] at agree
    exact (List.append_eq_nil_iff.mp agree.2).2

/-- A symbol of two characters, in front of which the text does not come to an end, nor in the
middle of which. -/
protected theorem symbol_pair {text : String} {d : Char} (seam : Seam t)
    (spelled : text.toList = ['?', d]) (nonblank : ¬ Blank u) (ended : Ended u) :
    Same t (symbol text) (symbol text) u := by
  refine .padded seam (exactly_inside fun v agree => ?_)
  obtain nothing | ⟨c, r, same, -⟩ := skipBlanks_cases u
  · exact absurd (skipBlanks_eq_nil_iff.mp nothing) nonblank
  rw [same, spelled, List.cons_append, List.cons.injEq] at agree
  cases r with
  | nil =>
      have last : c :: [] <:+ u := same ▸ skipBlanks_suffix u
      exact absurd agree.1 (ended c [] last blank_nil).2
  | cons e r =>
      rw [List.cons_append, List.cons.injEq] at agree
      exact (List.append_eq_nil_iff.mp agree.2.2).2

end Same

/-- A word without dots and brackets whose last character cannot go on. -/
structure Plain (text : String) : Prop where
  last : text.toList.getLast?.any closes = true
  inner : '.' ∉ text.toList ∧ '[' ∉ text.toList

theorem plain_of_char {text : String} {c : Char} (spelled : text.toList = [c])
    (isClosing : closes c = true) (other : c ≠ '.' ∧ c ≠ '[') : Plain text := by
  constructor
  · rw [spelled]
    exact isClosing
  rw [spelled, List.mem_singleton, List.mem_singleton]
  exact ⟨fun same => other.1 same.symm, fun same => other.2 same.symm⟩

/-- A reader that comes to an end inside the text if there is one, and what it has read last does
not go on. It may be told to read less than `n` characters. -/
structure Closed (t : List Char) (n : Nat) (p p' : Scan α) : Prop where
  leaves : Leaves 0 p
  finishes : Finishes p
  same : ∀ u, u.length < n → Ended u → Same t p p' u

namespace Closed

variable {t : List Char} {m n : Nat} {p p' q q' : Scan α} {f f' : α → Scan β}

protected theorem pure (a : α) : Closed t n (pure a : Scan α) (pure a) where
  leaves := .pure a
  finishes := .pure a
  same u _ _ := .pure a u

protected theorem failure : Closed t n (failure : Scan α) failure where
  leaves := .failure 0
  finishes := .failure
  same _ _ _ := .of_none rfl rfl

/-- What comes after a part that takes `k` characters has `k` characters less. -/
theorem bind_shorter {k : Nat} (first : Closed t (n + k) p p') (leaves : Leaves k p)
    (second : ∀ a, Closed t n (f a) (f' a)) : Closed t (n + k) (p >>= f) (p' >>= f') where
  leaves := first.leaves.bind_left fun a => (second a).leaves
  finishes := first.finishes.bind first.leaves fun a => (second a).finishes
  same := by
    intro u short ended
    refine (first.same u short ended).bind fun a r read => ?_
    obtain ⟨suffix, shorter⟩ := leaves u a r read
    exact (second a).same r (by omega) (ended.of_suffix suffix)

protected theorem bind (first : Closed t n p p') (second : ∀ a, Closed t n (f a) (f' a)) :
    Closed t n (p >>= f) (p' >>= f') :=
  bind_shorter (k := 0) first first.leaves second

protected theorem orElse (first : Closed t n p p') (second : Closed t n q q') :
    Closed t n (p <|> q) (p' <|> q') where
  leaves := first.leaves.orElse second.leaves
  finishes := first.finishes.orElse second.finishes
  same u short ended := (first.same u short ended).orElse (second.same u short ended)

protected theorem optional (closed : Closed t n p p') : Closed t n (optional p) (optional p') :=
  (closed.bind fun a => .pure (some a)).orElse (.pure none)

protected theorem ofOption (o : Option α) : Closed t n (ofOption o) (ofOption o) := by
  cases o with
  | none => exact .failure
  | some a => exact .pure a

/-- A character that cannot go on with a text, be it the last one. -/
protected theorem satisfy {accepts : Char → Bool} (seam : Seam t)
    (rejects : accepts '.' = false ∧ accepts '[' = false ∧ accepts '>' = false ∧
      accepts '?' = false) :
    Closed t n (satisfy accepts) (satisfy accepts) where
  leaves := (Leaves.satisfy accepts).mono (Nat.zero_le 1)
  finishes := .satisfy rejects.2.2
  same := by
    intro u _ _
    cases u with
    | cons c u => exact .satisfy (List.cons_ne_nil c u)
    | nil =>
        obtain ⟨c, more, rfl, starts⟩ := seam.start
        have rejected : accepts c = false := by
          rcases starts with rfl | rfl
          · exact rejects.1
          · exact rejects.2.1
        refine .of_none rfl ?_
        rw [List.nil_append, satisfy, rejected]
        rfl

protected theorem exactly {text : String} (seam : Seam t) (plain : Plain text) :
    Closed t n (exactly text) (exactly text) where
  leaves := (Leaves.exactly text).mono (Nat.zero_le _)
  finishes := .exactly plain.last
  same u _ _ := .exactly (seam.head_not_mem plain.inner) u

protected theorem blanks (seam : Seam t) : Closed t n blanks blanks where
  leaves := .blanks
  finishes := .blanks
  same u _ _ := .blanks seam u

protected theorem padded (seam : Seam t) (closed : Closed t n p p') :
    Closed t n (padded p) (padded p') :=
  (Closed.blanks seam).bind fun _ => closed.bind fun a =>
    (Closed.blanks seam).bind fun _ => .pure a

protected theorem symbol {text : String} (seam : Seam t) (plain : Plain text) :
    Closed t n (symbol text) (symbol text) :=
  (Closed.exactly seam plain).padded seam

protected theorem ite {c : Prop} [Decidable c] (yes : Closed t n p p') (no : Closed t n q q') :
    Closed t n (if c then p else q) (if c then p' else q') := by
  split
  · exact yes
  · exact no

end Closed

/-! ## Repetitions -/

/-- What holds of a text if it holds of all shorter ones. -/
theorem shorterFirst {P : List Char → Prop}
    (step : ∀ u, (∀ r, r.length < u.length → P r) → P u) (u : List Char) : P u :=
  (measure List.length).wf.induction u step

protected theorem Same.itemsOf {t : List Char} {n : Nat} {p p' : Scan α} (leaves : Leaves 1 p)
    (same : ∀ u, u.length < n → Ended u → Same t p p' u) (u : List Char) (short : u.length < n)
    (ended : Ended u) :
    itemsOf p' (u ++ t) = ((itemsOf p u).1, (itemsOf p u).2 ++ t) := by
  induction u using shorterFirst with
  | step u inductionHypothesis =>
      have here := same u short ended
      cases found : p u with
      | none => rw [itemsOf_of_none found, itemsOf_of_none (here.none found)]
      | some x =>
          obtain ⟨a, r⟩ := x
          obtain ⟨suffix, shorter⟩ := leaves u a r found
          have longer : (r ++ t).length < (u ++ t).length := by
            rw [List.length_append, List.length_append]
            omega
          rw [itemsOf_of_some found (by omega), itemsOf_of_some (here.some found) longer,
            inductionHypothesis r (by omega) (by omega) (ended.of_suffix suffix)]

/-- The items of a text whose items are taken to the end, and one more that is put behind. -/
theorem itemsOf_append {t : List Char} {n : Nat} {p p' : Scan α} {a : α} (leaves : Leaves 1 p)
    (needs : Needs p) (same : ∀ u, u.length < n → Ended u → ¬ Blank u → Same t p p' u)
    (last : ∀ u, Blank u → p' (u ++ t) = some (a, [])) (needs' : Needs p') (nonempty : t ≠ [])
    (u : List Char) (short : u.length < n) (ended : Ended u) (blank : Blank (itemsOf p u).2) :
    itemsOf p' (u ++ t) = ((itemsOf p u).1 ++ [a], []) := by
  have longer (u : List Char) : ([] : List Char).length < (u ++ t).length :=
    List.length_pos_iff.mpr (List.append_ne_nil_of_right_ne_nil u nonempty)
  induction u using shorterFirst with
  | step u inductionHypothesis =>
      by_cases isOver : Blank u
      · rw [itemsOf_of_none (needs u isOver), itemsOf_of_some (last u isOver) (longer u),
          itemsOf_of_none (needs' [] blank_nil)]
        rfl
      have here := same u short ended isOver
      cases found : p u with
      | none =>
          rw [itemsOf_of_none found] at blank
          exact absurd blank isOver
      | some x =>
          obtain ⟨b, r⟩ := x
          obtain ⟨suffix, shorter⟩ := leaves u b r found
          have shorter' : (r ++ t).length < (u ++ t).length := by
            rw [List.length_append, List.length_append]
            omega
          rw [itemsOf_of_some found (by omega)] at blank ⊢
          rw [itemsOf_of_some (here.some found) shorter',
            inductionHypothesis r (by omega) (by omega) (ended.of_suffix suffix) blank]
          rfl

protected theorem Closed.many {t : List Char} {n : Nat} {p p' : Scan α} (closed : Closed t n p p')
    (leaves : Leaves 1 p) : Closed t n (many p) (many p') where
  leaves := .many closed.leaves
  finishes := closed.finishes.many closed.leaves
  same u short ended :=
    congrArg some (Same.itemsOf leaves closed.same u short ended)

protected theorem Closed.many1 {t : List Char} {n : Nat} {p p' : Scan α} (closed : Closed t n p p')
    (leaves : Leaves 1 p) : Closed t n (many1 p) (many1 p') :=
  closed.bind fun _ => (closed.many leaves).bind fun _ => .pure _

/-! ## Quotes -/

/-- An item between quotes, with text behind: it may read everything, and then it reads on. -/
def Inside (t : List Char) (p p' : Scan α) (u : List Char) : Prop :=
  Same t p p' u ∨
    ∃ a a' r, p u = some (a, []) ∧ p' (u ++ t) = some (a', r) ∧ r <:+ t

section Quotes

variable {t : List Char} {n : Nat} {p p' : Scan α}

theorem Inside.orElse {q q' : Scan α} {u : List Char} (first : Inside t p p' u)
    (second : Same t q q' u) : Inside t (p <|> q) (p' <|> q') u := by
  rcases first with same | ⟨a, a', r, read, read', suffix⟩
  · exact .inl (same.orElse second)
  · exact .inr ⟨a, a', r, orElse_of_some read, orElse_of_some read', suffix⟩

theorem Inside.bind_pure {u : List Char} (inside : Inside t p p' u) (g : α → β) :
    Inside t (do let a ← p; pure (g a)) (do let a ← p'; pure (g a)) u := by
  rcases inside with same | ⟨a, a', r, read, read', suffix⟩
  · exact .inl (same.bind fun _ r _ => .pure _ r)
  · exact .inr ⟨g a, g a', r, bind_of_some read, bind_of_some read', suffix⟩

/-- The items between quotes are the same, unless the text has no more quotes. -/
theorem itemsOf_inside (leaves : Leaves 1 p) (leaves' : Leaves 1 p')
    (inside : ∀ u, u.length < n → Ended u → u ≠ [] → Inside t p p' u) (u : List Char)
    (short : u.length < n) (ended : Ended u) :
    (itemsOf p' (u ++ t) = ((itemsOf p u).1, (itemsOf p u).2 ++ t) ∧ (itemsOf p u).2 ≠ []) ∨
      ((itemsOf p u).2 = [] ∧ (itemsOf p' (u ++ t)).2 <:+ t) := by
  induction u using shorterFirst with
  | step u inductionHypothesis =>
      have afterwards (v : List Char) : (itemsOf p' v).2 <:+ v :=
        (leaves'.mono (Nat.zero_le 1)).itemsOf v
      have atEnd : itemsOf p [] = ([], []) := by
        refine itemsOf_of_none ?_
        cases found : p [] with
        | none => rfl
        | some x => exact absurd (leaves [] x.1 x.2 found).2 (Nat.not_succ_le_zero _)
      by_cases nonempty : u = []
      · subst nonempty
        rw [atEnd]
        exact .inr ⟨rfl, afterwards t⟩
      rcases inside u short ended nonempty with here | ⟨a, a', r, read, read', suffix⟩
      · cases found : p u with
        | none =>
            rw [itemsOf_of_none found, itemsOf_of_none (here.none found)]
            exact .inl ⟨rfl, nonempty⟩
        | some x =>
            obtain ⟨a, r⟩ := x
            obtain ⟨suffix, shorter⟩ := leaves u a r found
            have longer : (r ++ t).length < (u ++ t).length := by
              rw [List.length_append, List.length_append]
              omega
            rw [itemsOf_of_some found (by omega), itemsOf_of_some (here.some found) longer]
            rcases inductionHypothesis r (by omega) (by omega) (ended.of_suffix suffix) with
              ⟨same, more⟩ | isOver
            · rw [same]
              exact .inl ⟨rfl, more⟩
            · exact .inr isOver
      · have shorter := (leaves u a [] read).2
        have longer := (leaves' (u ++ t) a' r read').2
        rw [itemsOf_of_some read (by omega), itemsOf_of_some read' (by omega), atEnd]
        exact .inr ⟨rfl, (afterwards r).trans suffix⟩

theorem inside_many1 (leaves : Leaves 1 p) (leaves' : Leaves 1 p')
    (same : ∀ u, u.length < n → Ended u → u ≠ [] → Same t p p' u) (u : List Char)
    (short : u.length < n) (ended : Ended u) (nonempty : u ≠ []) :
    Inside t (many1 p) (many1 p') u := by
  have here := same u short ended nonempty
  cases found : p u with
  | none => exact .inl (.of_none (bind_of_none found) (bind_of_none (here.none found)))
  | some x =>
      obtain ⟨a, r⟩ := x
      obtain ⟨suffix, shorter⟩ := leaves u a r found
      rcases itemsOf_inside leaves leaves' (fun u short ended nonempty =>
        .inl (same u short ended nonempty)) r (by omega) (ended.of_suffix suffix) with
        ⟨agree, -⟩ | ⟨isOver, suffix'⟩
      · refine .inl (.of_some (a := a :: (itemsOf p r).1) (r := (itemsOf p r).2) ?_ ?_)
        · exact bind_of_some found
        · refine (bind_of_some (here.some found)).trans ?_
          exact congrArg (fun x => some (a :: x.1, x.2)) agree
      · refine .inr ⟨a :: (itemsOf p r).1, a :: (itemsOf p' (r ++ t)).1, _, ?_, ?_, suffix'⟩
        · refine (bind_of_some found).trans ?_
          exact congrArg (fun v => some (a :: (itemsOf p r).1, v)) isOver
        · exact bind_of_some (here.some found)

/-- What stands between quotes is the same with text behind, or it reads to the end and leaves some
of that text at most. -/
def Between (t : List Char) (p p' : Scan α) (u : List Char) : Prop :=
  (∃ a r, r ≠ [] ∧ p u = some (a, r) ∧ p' (u ++ t) = some (a, r ++ t)) ∨
    ((∀ a r, p u = some (a, r) → r = []) ∧ ∀ a r, p' (u ++ t) = some (a, r) → r <:+ t)

theorem between_many (leaves : Leaves 1 p) (leaves' : Leaves 1 p')
    (inside : ∀ u, u.length < n → Ended u → u ≠ [] → Inside t p p' u) (u : List Char)
    (short : u.length < n) (ended : Ended u) : Between t (many p) (many p') u := by
  rcases itemsOf_inside leaves leaves' inside u short ended with ⟨same, more⟩ | ⟨isOver, suffix⟩
  · exact .inl ⟨_, _, more, rfl, congrArg some same⟩
  · refine .inr ⟨fun as r read => ?_, fun as r read => ?_⟩
    · rw [show itemsOf p u = (as, r) from Option.some.inj read] at isOver
      exact isOver
    · rw [show itemsOf p' (u ++ t) = (as, r) from Option.some.inj read] at suffix
      exact suffix

theorem between_single (leaves : Leaves 1 p) (leaves' : Leaves 1 p')
    (inside : ∀ u, u.length < n → Ended u → u ≠ [] → Same t p p' u) (u : List Char)
    (short : u.length < n) (ended : Ended u) : Between t p p' u := by
  by_cases nonempty : u = []
  · subst nonempty
    refine .inr ⟨fun a r read => ?_, fun a r read => (leaves' t a r read).1⟩
    exact absurd (leaves [] a r read).2 (Nat.not_succ_le_zero _)
  have here := inside u short ended nonempty
  cases found : p u with
  | none =>
      refine .inr ⟨fun a r read => (by rw [found] at read; cases read), fun a r read => ?_⟩
      rw [here.none found] at read
      cases read
  | some x =>
      obtain ⟨a, r⟩ := x
      by_cases isOver : r = []
      · subst isOver
        refine .inr ⟨fun b r read => ?_, fun b r read => ?_⟩
        · rw [found] at read
          exact (Prod.mk.inj (Option.some.inj read)).2.symm
        · rw [here.some found] at read
          obtain ⟨-, rfl⟩ := Prod.mk.inj (Option.some.inj read)
          exact List.suffix_rfl
      · exact .inl ⟨a, r, isOver, found, here.some found⟩

/-- No quote is closed behind the text. -/
theorem Seam.unclosed {closing : String} {q : Char} {r : List Char} (seam : Seam t)
    (stop : closing.toList = [q]) (quote : q = '"' ∨ q = '\'') (suffix : r <:+ t) :
    exactly closing r = none := by
  cases found : exactly closing r with
  | none => rfl
  | some x =>
      have isElement : q ∈ t := suffix.subset (by
        rw [exactly_eq_some_iff.mp found, stop]
        exact List.mem_cons_self)
      rcases quote with rfl | rfl
      · exact absurd rfl (seam.unquoted _ isElement).1
      · exact absurd rfl (seam.unquoted _ isElement).2

/-- Without a closing quote behind, quotes that are open stay open. -/
theorem Closed.quoted {opening closing : String} {q : Char} (seam : Seam t)
    (start : Closed t n (exactly opening) (exactly opening)) (stop : closing.toList = [q])
    (quote : q = '"' ∨ q = '\'') (leaves : Leaves 0 p)
    (between : ∀ u, u.length < n → Ended u → Between t p p' u) :
    Closed t n (enclosed (exactly opening) p (exactly closing))
      (enclosed (exactly opening) p' (exactly closing)) := by
  refine start.bind fun _ => ?_
  have last : Closed t n (exactly closing) (exactly closing) := by
    refine .exactly seam (plain_of_char stop ?_ ?_)
    all_goals rcases quote with rfl | rfl <;> decide
  have close (a : α) : Closed t n (do let _ ← exactly closing; pure a)
      (do let _ ← exactly closing; pure a) := last.bind fun _ => .pure a
  have unclosed {r : List Char} (suffix : r <:+ t) (a : α) :
      (do let _ ← exactly closing; pure a) r = none :=
    bind_of_none (seam.unclosed stop quote suffix)
  refine ⟨leaves.bind_left fun a => (close a).leaves, ?_, fun u short ended => ?_⟩
  · refine Finishes.bind_last leaves (fun a => (close a).finishes) fun a => ?_
    refine (Needs.exactly stop ?_).bind _
    rcases quote with rfl | rfl <;> decide
  · rcases between u short ended with ⟨a, r, more, read, read'⟩ | ⟨isOver, suffix⟩
    · have suffix := (leaves u a r read).1
      rw [Same, bind_of_some read, bind_of_some read']
      exact (close a).same r (Nat.lt_of_le_of_lt suffix.length_le short) (ended.of_suffix suffix)
    · refine .of_none ?_ ?_
      · cases found : p u with
        | none => exact bind_of_none found
        | some x =>
            rw [bind_of_some found, isOver x.1 x.2 found]
            exact unclosed (List.nil_suffix) x.1
      · cases found : p' (u ++ t) with
        | none => exact bind_of_none found
        | some x =>
            rw [bind_of_some found]
            exact unclosed (suffix x.1 x.2 found) x.1

end Quotes

/-! ## Readers that may read on -/

/-- The outcomes of a reading and of the one with `t` behind: nothing of `t` was read, or the whole
text was read, and all of `t` as well. -/
inductive Outcome (t : List Char) : Option (α × List Char) → Option (α × List Char) → Prop where
  | fails : Outcome t none none
  | same (a : α) (r : List Char) : Outcome t (some (a, r)) (some (a, r ++ t))
  | toEnd (a a' : α) {r : List Char} : Blank r → Outcome t (some (a, r)) (some (a', []))

/-- The outcomes where one reading has nothing but blanks before it, and the other nothing. -/
inductive Spent : Option (α × List Char) → Option (α × List Char) → Prop where
  | fails : Spent none none
  | toEnd (a a' : α) {r : List Char} : Blank r → Spent (some (a, r)) (some (a', []))

theorem Spent.outcome {t : List Char} {o o' : Option (α × List Char)} (spent : Spent o o') :
    Outcome t o o' := by
  cases spent with
  | fails => exact .fails
  | toEnd a a' blank => exact .toEnd a a' blank

theorem Same.outcome {t u : List Char} {p p' : Scan α} (same : Same t p p' u) :
    Outcome t (p u) (p' (u ++ t)) := by
  cases found : p u with
  | none =>
      rw [same.none found]
      exact .fails
  | some x =>
      rw [same.some found]
      exact .same x.1 x.2

/-- Readers that come to the same with `t` behind, or read on. Whether they succeed does not depend
on what has been read before once the text is spent. -/
structure Matches (t : List Char) (n : Nat) (f f' : ι → Scan α) : Prop where
  leaves : ∀ i, Leaves 0 (f i)
  live : ∀ i u, u.length < n → Ended u → Outcome t (f i u) (f' i (u ++ t))
  spent : ∀ i i' u, Blank u → Spent (f i u) (f' i' [])

/-- A single reader. -/
abbrev Match (t : List Char) (n : Nat) (p p' : Scan α) : Prop :=
  Matches t n (fun _ : Unit => p) (fun _ => p')

section Matching

variable {t : List Char} {m n k : Nat} {p p' q q' : Scan α}

theorem Matches.mono {f f' : ι → Scan α} (matching : Matches t n f f') (le : m ≤ n) :
    Matches t m f f' :=
  ⟨matching.leaves, fun i u short => matching.live i u (Nat.lt_of_lt_of_le short le),
    matching.spent⟩

theorem Match.of_same (leaves : Leaves 0 p)
    (same : ∀ u, u.length < n → Ended u → Same t p p' u) (needs : Needs p) (needs' : Needs p') :
    Match t n p p' where
  leaves _ := leaves
  live _ u short ended := (same u short ended).outcome
  spent _ _ u blank := by
    rw [needs u blank, needs' [] blank_nil]
    exact .fails

/-- A reader that may not open a bracket reads nothing. -/
theorem Match.of_failure (needs' : Needs p') : Match t 0 failure p' where
  leaves _ := .failure 0
  live _ u short _ := absurd short (Nat.not_lt_zero _)
  spent _ _ u _ := by
    rw [needs' [] blank_nil]
    exact .fails

theorem Match.any (matching : Match t n p p') : Matches t n (fun _ : ι => p) fun _ => p' :=
  ⟨fun _ => matching.leaves (), fun _ => matching.live (), fun _ _ => matching.spent () ()⟩

theorem Closed.matching (closed : Closed t n p p') (needs : Needs p) (needs' : Needs p') :
    Match t n p p' := .of_same closed.leaves closed.same needs needs'

namespace Matches

protected theorem pure (g : ι → α) : Matches t n (fun i => pure (g i)) fun i => pure (g i) where
  leaves i := .pure (g i)
  live i u _ _ := .same (g i) u
  spent i i' _ blank := .toEnd (g i) (g i') blank

/-- What comes after a part that takes `k` characters has `k` characters less. -/
theorem bind_shorter {g g' : ι → α → Scan β} (first : Match t (n + k) p p') (leaves : Leaves k p)
    (second : Matches t n (fun x : ι × α => g x.1 x.2) fun x => g' x.1 x.2) :
    Matches t (n + k) (fun i => p >>= g i) fun i => p' >>= g' i where
  leaves i := (first.leaves ()).bind_left fun a => second.leaves (i, a)
  live i u short ended := by
    have outcome := first.live () u short ended
    generalize found : p u = o at outcome
    generalize found' : p' (u ++ t) = o' at outcome
    cases outcome with
    | fails =>
        rw [bind_of_none found, bind_of_none found']
        exact .fails
    | same a r =>
        obtain ⟨suffix, shorter⟩ := leaves u a r found
        rw [bind_of_some found, bind_of_some found']
        exact second.live (i, a) r (by omega) (ended.of_suffix suffix)
    | toEnd a a' blank =>
        rw [bind_of_some found, bind_of_some found']
        exact (second.spent (i, a) (i, a') _ blank).outcome
  spent i i' u blank := by
    have outcome := first.spent () () u blank
    generalize found : p u = o at outcome
    generalize found' : p' [] = o' at outcome
    cases outcome with
    | fails =>
        rw [bind_of_none found, bind_of_none found']
        exact .fails
    | toEnd a a' isOver =>
        rw [bind_of_some found, bind_of_some found']
        exact second.spent (i, a) (i', a') _ isOver

protected theorem bind {g g' : ι → α → Scan β} (first : Match t n p p')
    (second : Matches t n (fun x : ι × α => g x.1 x.2) fun x => g' x.1 x.2) :
    Matches t n (fun i => p >>= g i) fun i => p' >>= g' i :=
  bind_shorter (k := 0) first (first.leaves ()) second

protected theorem orElse {f f' g g' : ι → Scan α} (first : Matches t n f f')
    (second : Matches t n g g') : Matches t n (fun i => f i <|> g i) fun i => f' i <|> g' i where
  leaves i := (first.leaves i).orElse (second.leaves i)
  live i u short ended := by
    have outcome := first.live i u short ended
    generalize found : f i u = o at outcome
    generalize found' : f' i (u ++ t) = o' at outcome
    cases outcome with
    | fails =>
        rw [orElse_of_none found, orElse_of_none found']
        exact second.live i u short ended
    | same a r =>
        rw [orElse_of_some found, orElse_of_some found']
        exact .same a r
    | toEnd a a' blank =>
        rw [orElse_of_some found, orElse_of_some found']
        exact .toEnd a a' blank
  spent i i' u blank := by
    have outcome := first.spent i i' u blank
    generalize found : f i u = o at outcome
    generalize found' : f' i' [] = o' at outcome
    cases outcome with
    | fails =>
        rw [orElse_of_none found, orElse_of_none found']
        exact second.spent i i' u blank
    | toEnd a a' isOver =>
        rw [orElse_of_some found, orElse_of_some found']
        exact .toEnd a a' isOver

protected theorem optional (matching : Match t n p p') :
    Match t n (optional p) (optional p') := by
  have some' : Match t n (do let a ← p; pure (some a)) (do let a ← p'; pure (some a)) :=
    Matches.bind matching (Matches.pure fun x : Unit × α => some x.2)
  exact Matches.orElse some' (Matches.pure fun _ => none)

end Matches

/-- An item of a list may start at the seam, but then it has to take all that is behind. -/
structure Item (t : List Char) (n : Nat) (p p' : Scan α) : Prop where
  leaves : Leaves 1 p
  needs : Needs p
  needs' : Needs p'
  live : ∀ u, u.length < n → Ended u → ¬ Blank u → Outcome t (p u) (p' (u ++ t))
  seam : ∀ u, u.length < n → Blank u →
    p' (u ++ t) = none ∨ ∃ a, p' (u ++ t) = some (a, [])

theorem Match.item (matching : Match t n p p') (leaves : Leaves 1 p) (needs : Needs p)
    (needs' : Needs p') : Item t n p p' where
  leaves := leaves
  needs := needs
  needs' := needs'
  live u short ended _ := matching.live () u short ended
  seam u short blank := by
    have outcome := matching.live () u short blank.ended
    rw [needs u blank] at outcome
    generalize found : p' (u ++ t) = o' at outcome
    cases outcome with
    | fails => exact .inl rfl

/-- An item that reads to the end is the last one. -/
theorem Item.itemsOf_toEnd (item : Item t n p p') (nonempty : t ≠ []) {u : List Char} {a : α}
    (read : p' (u ++ t) = some (a, [])) : itemsOf p' (u ++ t) = ([a], []) := by
  have longer : ([] : List Char).length < (u ++ t).length :=
    List.length_pos_iff.mpr (List.append_ne_nil_of_right_ne_nil u nonempty)
  rw [itemsOf_of_some read longer, itemsOf_of_none (item.needs' [] blank_nil)]

theorem Outcome.cons {x x' : List α × List Char} (outcome : Outcome t (some x) (some x'))
    (a : α) : Outcome t (some (a :: x.1, x.2)) (some (a :: x'.1, x'.2)) := by
  cases outcome with
  | same as r => exact .same (a :: as) r
  | toEnd as as' blank => exact .toEnd (a :: as) (a :: as') blank

theorem Item.outcome (item : Item t n p p') (nonempty : t ≠ []) (u : List Char)
    (short : u.length < n) (ended : Ended u) :
    Outcome t (some (itemsOf p u)) (some (itemsOf p' (u ++ t))) := by
  induction u using shorterFirst with
  | step u inductionHypothesis =>
      by_cases blank : Blank u
      -- The text is over, so what stands behind it may be one more item.
      · rw [itemsOf_of_none (item.needs u blank)]
        rcases item.seam u short blank with failed | ⟨a, read⟩
        · rw [itemsOf_of_none failed]
          exact .same [] u
        · rw [item.itemsOf_toEnd nonempty read]
          exact .toEnd [] [a] blank
      have outcome := item.live u short ended blank
      generalize found : p u = o at outcome
      generalize found' : p' (u ++ t) = o' at outcome
      cases outcome with
      | fails =>
          rw [itemsOf_of_none found, itemsOf_of_none found']
          exact .same [] u
      | same a r =>
          obtain ⟨suffix, shorter⟩ := item.leaves u a r found
          have longer : (r ++ t).length < (u ++ t).length := by
            rw [List.length_append, List.length_append]
            omega
          rw [itemsOf_of_some found (by omega), itemsOf_of_some found' longer]
          exact (inductionHypothesis r (by omega) (by omega) (ended.of_suffix suffix)).cons a
      | @toEnd a a' r isOver =>
          have shorter := (item.leaves u a r found).2
          rw [itemsOf_of_some found (by omega), itemsOf_of_none (item.needs r isOver),
            item.itemsOf_toEnd nonempty found']
          exact .toEnd [a] [a'] isOver

protected theorem Item.many (item : Item t n p p') (nonempty : t ≠ []) :
    Match t n (many p) (many p') where
  leaves _ := .many (item.leaves.mono (Nat.zero_le 1))
  spent _ _ u blank := by
    have here : many p u = some ([], u) := congrArg some (itemsOf_of_none (item.needs u blank))
    have there : many p' [] = some ([], []) :=
      congrArg some (itemsOf_of_none (item.needs' [] blank_nil))
    rw [here, there]
    exact .toEnd [] [] blank
  live _ u short ended := item.outcome nonempty u short ended

theorem Match.separated {separator separator' : Scan β} (matching : Match t n p p')
    (between : Match t n separator separator') (shorter : Leaves 1 separator)
    (needs : Needs separator) (needs' : Needs separator') (nonempty : t ≠ []) :
    Match t n (separated p separator) (separated p' separator') := by
  have next : Match t n (do let _ ← separator; p) (do let _ ← separator'; p') :=
    Matches.bind between matching.any
  have others := (next.item (shorter.bind_left fun _ => matching.leaves ()) (needs.bind _)
    (needs'.bind _)).many nonempty
  refine Matches.orElse (Matches.bind matching ?_) (Matches.pure fun _ => [])
  refine Matches.bind others ?_
  exact Matches.pure fun x : (Unit × α) × List α => x.1.2 :: x.2

/-- A bracket that is closed in the text keeps what is inside from reading on. -/
theorem Same.closing {f f' : α → Scan β} (matching : Match t n p p')
    (last : ∀ a u, u.length < n → Ended u → Same t (f a) (f' a) u) (needs : ∀ a, Needs (f a))
    (needs' : ∀ a, Needs (f' a)) (u : List Char) (short : u.length < n) (ended : Ended u) :
    Same t (p >>= f) (p' >>= f') u := by
  have outcome := matching.live () u short ended
  generalize found : p u = o at outcome
  generalize found' : p' (u ++ t) = o' at outcome
  cases outcome with
  | fails => exact .of_none (bind_of_none found) (bind_of_none found')
  | same a r =>
      have suffix := (matching.leaves () u a r found).1
      rw [Same, bind_of_some found, bind_of_some found']
      exact last a r (Nat.lt_of_le_of_lt suffix.length_le short) (ended.of_suffix suffix)
  | toEnd a a' blank =>
      refine .of_none ((bind_of_some found).trans (needs a _ blank)) ?_
      exact (bind_of_some found').trans (needs' a' [] blank_nil)

theorem Closed.closing {f f' : α → Scan β} (matching : Match t n p p')
    (last : ∀ a, Closed t n (f a) (f' a)) (needs : ∀ a, Needs (f a)) (needs' : ∀ a, Needs (f' a)) :
    Closed t n (p >>= f) (p' >>= f') where
  leaves := (matching.leaves ()).bind_left fun a => (last a).leaves
  finishes := .bind_last (matching.leaves ()) (fun a => (last a).finishes) needs
  same := Same.closing matching (fun a => (last a).same) needs needs'

theorem Closed.enclosed {opening closing : Scan β} (start : Closed t (n + 1) opening opening)
    (shorter : Leaves 1 opening) (matching : Match t n p p') (stop : Closed t n closing closing)
    (needs : Needs closing) :
    Closed t (n + 1) (enclosed opening p closing) (enclosed opening p' closing) :=
  start.bind_shorter shorter fun _ =>
    .closing matching (fun _ => stop.bind fun _ => .pure _) (fun _ => needs.bind _)
      fun _ => needs.bind _

end Matching

end ManagedDebugger.Text.Scan
