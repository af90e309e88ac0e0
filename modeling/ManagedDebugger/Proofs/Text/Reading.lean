import ManagedDebugger.Text.Scan

/-!
# What a reader leaves

Whether a reader succeeds, what is left of the text, and what it does where there is nothing but
blanks.
-/

namespace ManagedDebugger.Text

theorem isBlank_of_visible {c : Char} (low : 0x20 < c.toNat) (high : c.toNat < 0x85) :
    isBlank c = false := by
  simp only [isBlank, Bool.or_eq_false_iff, Bool.and_eq_false_iff, decide_eq_false_iff_not,
    beq_eq_false_iff_ne]
  omega

/-- Nothing but blanks. -/
def Blank (u : List Char) : Prop := ∀ c ∈ u, isBlank c = true

theorem blank_nil : Blank [] := fun _ isElement => absurd isElement List.not_mem_nil

theorem Blank.of_suffix {r u : List Char} (blank : Blank u) (suffix : r <:+ u) : Blank r :=
  fun c isElement => blank c (suffix.subset isElement)

theorem blank_cons_iff {c : Char} {u : List Char} :
    Blank (c :: u) ↔ isBlank c = true ∧ Blank u := List.forall_mem_cons

theorem skipBlanks_eq_nil_iff {u : List Char} : skipBlanks u = [] ↔ Blank u := by
  induction u with
  | nil => exact ⟨fun _ => blank_nil, fun _ => rfl⟩
  | cons c u inductionHypothesis =>
      rw [blank_cons_iff, ← inductionHypothesis, skipBlanks, List.dropWhile_cons]
      cases isBlank c <;> simp [skipBlanks]

theorem skipBlanks_of_blank {u : List Char} (blank : Blank u) : skipBlanks u = [] :=
  skipBlanks_eq_nil_iff.mpr blank

theorem skipBlanks_cons_of_shown {c : Char} (shown : isBlank c = false) (u : List Char) :
    skipBlanks (c :: u) = c :: u := by
  rw [skipBlanks, List.dropWhile_cons, shown]
  rfl

/-- The first character after the blanks, if there is one. -/
theorem skipBlanks_cases (u : List Char) :
    skipBlanks u = [] ∨ ∃ c r, skipBlanks u = c :: r ∧ isBlank c = false := by
  induction u with
  | nil => exact .inl rfl
  | cons c u inductionHypothesis =>
      cases kind : isBlank c with
      | false => exact .inr ⟨c, u, skipBlanks_cons_of_shown kind u, kind⟩
      | true =>
          rw [skipBlanks, List.dropWhile_cons, if_pos kind]
          exact inductionHypothesis

theorem skipBlanks_skipBlanks (u : List Char) : skipBlanks (skipBlanks u) = skipBlanks u := by
  rcases skipBlanks_cases u with nothing | ⟨c, r, same, shown⟩
  · rw [nothing]
    rfl
  · rw [same, skipBlanks_cons_of_shown shown]

theorem blank_of_skipBlanks {u : List Char} (blank : Blank (skipBlanks u)) : Blank u := by
  rwa [← skipBlanks_eq_nil_iff, skipBlanks_skipBlanks, skipBlanks_eq_nil_iff] at blank

theorem skipBlanks_suffix (u : List Char) : skipBlanks u <:+ u := List.dropWhile_suffix _

theorem skipBlanks_length_le (u : List Char) : (skipBlanks u).length ≤ u.length :=
  (skipBlanks_suffix u).length_le

/-- The blanks of a text are skipped as before if the text goes on with another character. -/
theorem skipBlanks_append {c : Char} {more : List Char} (shown : isBlank c = false)
    (u : List Char) : skipBlanks (u ++ c :: more) = skipBlanks u ++ c :: more := by
  induction u with
  | nil => simp [skipBlanks, shown]
  | cons d u inductionHypothesis =>
      unfold skipBlanks at inductionHypothesis ⊢
      rw [List.cons_append, List.dropWhile_cons, List.dropWhile_cons]
      split
      · exact inductionHypothesis
      · rfl

/-- The text does not end in the closing bracket of type arguments or in a question mark. -/
def Ended (u : List Char) : Prop :=
  ∀ c b, c :: b <:+ u → Blank b → c ≠ '>' ∧ c ≠ '?'

theorem Ended.of_suffix {r u : List Char} (ended : Ended u) (suffix : r <:+ u) : Ended r :=
  fun c b last => ended c b (last.trans suffix)

theorem Blank.ended {u : List Char} (blank : Blank u) : Ended u := by
  intro c b last _
  have isBlank : isBlank c = true := blank c (last.subset List.mem_cons_self)
  constructor
  · intro same
    subst same
    cases isBlank
  · intro same
    subst same
    cases isBlank

theorem Blank.ended_cons {c : Char} {r : List Char} (blank : Blank r)
    (other : c ≠ '>' ∧ c ≠ '?') : Ended (c :: r) := by
  intro d b last blankAfter
  rcases List.suffix_cons_iff.mp last with same | shorter
  · obtain ⟨rfl, -⟩ := List.cons.inj same
    exact other
  · exact blank.ended d b shorter blankAfter

/-- The end of a text is the end of any last part of it that is not blank. -/
theorem Ended.of_nonblank {r u : List Char} (ended : Ended r) (nonblank : ¬ Blank r)
    (suffix : r <:+ u) : Ended u := by
  intro c b last blank
  rcases List.suffix_or_suffix_of_suffix last suffix with inside | outside
  · exact ended c b inside blank
  · rcases List.suffix_cons_iff.mp outside with same | shorter
    · exact ended c b (same ▸ List.suffix_rfl) blank
    · exact absurd (blank.of_suffix shorter) nonblank

namespace Scan

variable {α β : Type}

theorem bind_apply (p : Scan α) (f : α → Scan β) (u : List Char) :
    (p >>= f) u = (p u).bind fun x => f x.1 x.2 := rfl

theorem bind_eq_some_iff {p : Scan α} {f : α → Scan β} {u r : List Char} {b : β} :
    (p >>= f) u = some (b, r) ↔ ∃ a v, p u = some (a, v) ∧ f a v = some (b, r) := by
  rw [bind_apply, Option.bind_eq_some_iff]
  exact Prod.exists

theorem bind_of_none {p : Scan α} {f : α → Scan β} {u : List Char} (failed : p u = none) :
    (p >>= f) u = none := by
  rw [bind_apply, failed]
  rfl

theorem bind_of_some {p : Scan α} {f : α → Scan β} {u v : List Char} {a : α}
    (read : p u = some (a, v)) : (p >>= f) u = f a v := by
  rw [bind_apply, read]
  rfl

theorem orElse_of_none {p q : Scan α} {u : List Char} (failed : p u = none) :
    (p <|> q) u = q u := by
  change (p u <|> q u) = _
  rw [failed]
  rfl

theorem orElse_of_some {p q : Scan α} {u : List Char} {x : α × List Char}
    (read : p u = some x) : (p <|> q) u = some x := by
  change (p u <|> q u) = _
  rw [read]
  rfl

/-- More branches behind those one of which succeeds. -/
theorem orElse_orElse_of_some {p q s : Scan α} {u : List Char} {x : α × List Char}
    (read : (p <|> q) u = some x) : (p <|> q <|> s) u = some x := by
  cases found : p u with
  | none =>
      rw [orElse_of_none found] at read ⊢
      exact orElse_of_some read
  | some y =>
      rw [orElse_of_some found] at read ⊢
      exact read

theorem optional_eq (p : Scan α) :
    optional p = ((do let a ← p; pure (some a)) <|> pure none) := rfl

theorem optional_of_none {p : Scan α} {u : List Char} (failed : p u = none) :
    optional p u = some (none, u) := by
  rw [optional_eq]
  exact orElse_of_none (bind_of_none failed)

theorem optional_of_some {p : Scan α} {u r : List Char} {a : α} (read : p u = some (a, r)) :
    optional p u = some (some a, r) := by
  rw [optional_eq]
  exact orElse_of_some (bind_of_some read)

theorem itemsOf_of_none {p : Scan α} {u : List Char} (failed : p u = none) :
    itemsOf p u = ([], u) := by
  rw [itemsOf, failed]

theorem itemsOf_of_some {p : Scan α} {u r : List Char} {a : α} (read : p u = some (a, r))
    (shorter : r.length < u.length) :
    itemsOf p u = (a :: (itemsOf p r).1, (itemsOf p r).2) := by
  rw [itemsOf, read]
  simp only [shorter, if_true]

/-- Items written one behind another are all read, where each is read in front of what may follow
one. -/
theorem itemsOf_flatMap (follows : List Char → Prop) {text : β → List Char} {value : β → α}
    {p : Scan α} {bs : List β} {r : List Char}
    (read : ∀ b ∈ bs, ∀ w, follows w → p (text b ++ w) = some (value b, w))
    (nonempty : ∀ b ∈ bs, text b ≠ []) (between : ∀ b ∈ bs, ∀ w, follows (text b ++ w))
    (last : follows r) (stop : p r = none) :
    itemsOf p (bs.flatMap text ++ r) = (bs.map value, r) := by
  induction bs with
  | nil => exact itemsOf_of_none stop
  | cons b bs inductionHypothesis =>
      obtain ⟨read, reads⟩ := List.forall_mem_cons.mp read
      obtain ⟨nonempty, nonempties⟩ := List.forall_mem_cons.mp nonempty
      have betweens := (List.forall_mem_cons.mp between).2
      have followed : follows (bs.flatMap text ++ r) := by
        cases bs with
        | nil => exact last
        | cons c bs =>
            rw [List.flatMap_cons, List.append_assoc]
            exact betweens c List.mem_cons_self _
      have shorter : (bs.flatMap text ++ r).length < (text b ++ (bs.flatMap text ++ r)).length := by
        have some := List.length_pos_iff.mpr nonempty
        have whole : (text b ++ (bs.flatMap text ++ r)).length =
            (text b).length + (bs.flatMap text ++ r).length := List.length_append
        omega
      rw [List.flatMap_cons, List.append_assoc, itemsOf_of_some (read _ followed) shorter,
        inductionHypothesis reads nonempties betweens]
      rfl

/-- A list with something between each two of its parts. -/
theorem intercalate_cons (sep first : List Char) (rest : List (List Char)) :
    sep.intercalate (first :: rest) = first ++ rest.flatMap fun text => sep ++ text := by
  induction rest generalizing first with
  | nil => rw [List.intercalate_singleton, List.flatMap_nil, List.append_nil]
  | cons second rest inductionHypothesis =>
      rw [List.intercalate_cons_cons, inductionHypothesis, List.flatMap_cons, List.append_assoc,
        List.append_assoc]

/-- As many items as there are, each joined to what there is before it. -/
def joined {γ : Type} (f : γ → α → γ) (p : Scan α) (c : γ) : Scan γ := do
  let items ← many p
  pure (items.foldl f c)

theorem joined_of_none {γ : Type} {f : γ → α → γ} {p : Scan α} {c : γ} {u : List Char}
    (failed : p u = none) : joined f p c u = some (c, u) := by
  have nothing : many p u = some ([], u) := congrArg some (itemsOf_of_none failed)
  exact bind_of_some nothing

theorem joined_of_some {γ : Type} {f : γ → α → γ} {p : Scan α} {c : γ} {u r : List Char} {a : α}
    (read : p u = some (a, r)) (shorter : r.length < u.length) :
    joined f p c u = joined f p (f c a) r := by
  have items : many p u = some (a :: (itemsOf p r).1, (itemsOf p r).2) :=
    congrArg some (itemsOf_of_some read shorter)
  exact bind_of_some items

theorem after?_eq_some_iff {lead u r : List Char} : after? lead u = some r ↔ u = lead ++ r := by
  induction lead generalizing u with
  | nil => exact ⟨fun same => Option.some.inj same, fun same => congrArg some same⟩
  | cons c lead inductionHypothesis =>
      cases u with
      | nil => exact ⟨nofun, nofun⟩
      | cons d u =>
          rw [after?]
          split
          case isTrue same =>
            subst same
            rw [inductionHypothesis, List.cons_append, List.cons_inj_right]
          case isFalse other =>
            exact ⟨nofun, fun same => absurd (List.cons.inj same).1.symm other⟩

theorem exactly_eq_some_iff {text : String} {u r : List Char} :
    exactly text u = some ((), r) ↔ u = text.toList ++ r := by
  rw [← after?_eq_some_iff, exactly]
  simp

theorem symbol_eq_some_iff {text : String} {u r : List Char} :
    symbol text u = some ((), r) ↔ ∃ v, skipBlanks u = text.toList ++ v ∧ r = skipBlanks v := by
  constructor
  · intro read
    obtain ⟨_, w, skipped, rest⟩ := bind_eq_some_iff.mp read
    obtain ⟨-, rfl⟩ := Prod.mk.inj (Option.some.inj skipped)
    obtain ⟨_, v, found, last⟩ := bind_eq_some_iff.mp rest
    obtain ⟨-, rfl⟩ := Prod.mk.inj (Option.some.inj last)
    exact ⟨v, exactly_eq_some_iff.mp found, rfl⟩
  · intro holds
    obtain ⟨v, same, rfl⟩ := holds
    have found : exactly text (skipBlanks u) = some ((), v) := exactly_eq_some_iff.mpr same
    exact (bind_of_some (v := skipBlanks u) rfl).trans (bind_of_some found)

/-- Where no blanks are in front, only those behind are skipped. -/
theorem padded_of_some {p : Scan α} {u r : List Char} {a : α} (start : skipBlanks u = u)
    (read : p u = some (a, r)) : padded p u = some (a, skipBlanks r) := by
  have before : blanks u = some ((), u) := congrArg (fun r => some ((), r)) start
  have behind : blanks r = some ((), skipBlanks r) := rfl
  exact (bind_of_some before).trans ((bind_of_some read).trans (bind_of_some behind))

/-! ## What is left -/

/-- What is left is a last part of the text, shorter by `k` characters at least. -/
def Leaves (k : Nat) (p : Scan α) : Prop :=
  ∀ u a r, p u = some (a, r) → r <:+ u ∧ r.length + k ≤ u.length

namespace Leaves

variable {k m : Nat} {p q : Scan α} {f : α → Scan β}

theorem mono (leaves : Leaves k p) (le : m ≤ k) : Leaves m p := by
  intro u a r read
  obtain ⟨suffix, shorter⟩ := leaves u a r read
  exact ⟨suffix, Nat.le_trans (Nat.add_le_add_left le _) shorter⟩

protected theorem pure (a : α) : Leaves 0 (pure a : Scan α) := by
  intro u b r read
  obtain ⟨rfl, rfl⟩ := Prod.mk.inj (Option.some.inj read)
  exact ⟨List.suffix_rfl, Nat.le_refl _⟩

protected theorem failure (k : Nat) : Leaves k (failure : Scan α) := fun _ _ _ read => nomatch read

protected theorem bind (first : Leaves k p) (second : ∀ a, Leaves m (f a)) :
    Leaves (k + m) (p >>= f) := by
  intro u b r read
  obtain ⟨a, v, left, right⟩ := bind_eq_some_iff.mp read
  obtain ⟨suffix, shorter⟩ := first u a v left
  obtain ⟨suffix', shorter'⟩ := second a v b r right
  exact ⟨suffix'.trans suffix, by omega⟩

theorem bind_left (first : Leaves k p) (second : ∀ a, Leaves 0 (f a)) : Leaves k (p >>= f) :=
  first.bind second

protected theorem orElse (first : Leaves k p) (second : Leaves k q) : Leaves k (p <|> q) := by
  intro u a r read
  cases found : p u with
  | none =>
      rw [orElse_of_none found] at read
      exact second u a r read
  | some x =>
      rw [orElse_of_some found] at read
      exact first u a r (found.trans read)

protected theorem satisfy (accepts : Char → Bool) : Leaves 1 (satisfy accepts) := by
  intro u c r read
  cases u with
  | nil => cases read
  | cons d u =>
      rw [satisfy] at read
      split at read
      · obtain ⟨rfl, rfl⟩ := Prod.mk.inj (Option.some.inj read)
        exact ⟨List.suffix_cons _ _, Nat.le_refl _⟩
      · cases read

protected theorem exactly (text : String) : Leaves text.toList.length (exactly text) := by
  intro u a r read
  rw [exactly_eq_some_iff.mp read]
  exact ⟨List.suffix_append _ _, Nat.le_of_eq (by rw [List.length_append, Nat.add_comm])⟩

protected theorem blanks : Leaves 0 blanks := by
  intro u a r read
  obtain ⟨-, rfl⟩ := Prod.mk.inj (Option.some.inj read)
  exact ⟨skipBlanks_suffix u, skipBlanks_length_le u⟩

protected theorem ofOption (o : Option α) : Leaves 0 (ofOption o) := by
  cases o with
  | none => exact .failure 0
  | some a => exact .pure a

protected theorem ahead (p : Scan α) : Leaves 0 (ahead p) := by
  intro u a r read
  obtain ⟨x, -, same⟩ := Option.map_eq_some_iff.mp read
  obtain ⟨-, rfl⟩ := Prod.mk.inj same
  exact ⟨List.suffix_rfl, Nat.le_refl _⟩

protected theorem optional (leaves : Leaves 0 p) : Leaves 0 (optional p) :=
  (leaves.bind_left fun a => .pure (some a)).orElse (.pure none)

protected theorem itemsOf (leaves : Leaves 0 p) (u : List Char) : (itemsOf p u).2 <:+ u := by
  fun_induction itemsOf p u with
  | case1 u _ => exact List.suffix_rfl
  | case2 u a r read _ as rest others inductionHypothesis =>
      rw [others] at inductionHypothesis
      exact inductionHypothesis.trans (leaves u a r read).1
  | case3 u a r _ _ => exact List.suffix_rfl

protected theorem many (leaves : Leaves 0 p) : Leaves 0 (many p) := by
  intro u as r read
  have suffix := leaves.itemsOf u
  rw [show itemsOf p u = (as, r) from Option.some.inj read] at suffix
  exact ⟨suffix, suffix.length_le⟩

protected theorem many1 (leaves : Leaves 1 p) : Leaves 1 (many1 p) :=
  leaves.bind_left fun a =>
    (Leaves.many (leaves.mono (Nat.zero_le 1))).bind_left fun as => .pure (a :: as)

protected theorem separated {separator : Scan β} (leaves : Leaves 0 p)
    (between : Leaves 0 separator) : Leaves 0 (separated p separator) := by
  refine (leaves.bind_left fun a => ?_).orElse (.pure [])
  exact (Leaves.many (between.bind_left fun _ => leaves)).bind_left fun as => .pure (a :: as)

protected theorem enclosed {opening closing : Scan β} (start : Leaves k opening)
    (leaves : Leaves 0 p) (stop : Leaves 0 closing) : Leaves k (enclosed opening p closing) :=
  start.bind_left fun _ => leaves.bind_left fun a => stop.bind_left fun _ => .pure a

protected theorem padded (leaves : Leaves k p) : Leaves k (padded p) := by
  have inside : Leaves k (do let a ← p; blanks; return a) :=
    leaves.bind_left fun a => Leaves.blanks.bind_left fun _ => .pure a
  exact (Leaves.blanks.bind fun _ => inside).mono (Nat.le_add_left k 0)

protected theorem symbol (text : String) : Leaves text.toList.length (symbol text) :=
  (Leaves.exactly text).padded

end Leaves

/-- Fails where there is nothing but blanks. -/
def Needs (p : Scan α) : Prop := ∀ u, Blank u → p u = none

namespace Needs

variable {p q : Scan α}

protected theorem bind (needs : Needs p) (f : α → Scan β) : Needs (p >>= f) :=
  fun u blank => bind_of_none (needs u blank)

protected theorem orElse (first : Needs p) (second : Needs q) : Needs (p <|> q) := by
  intro u blank
  rw [orElse_of_none (first u blank)]
  exact second u blank

protected theorem satisfy {accepts : Char → Bool}
    (shown : ∀ c, accepts c = true → isBlank c = false) : Needs (satisfy accepts) := by
  intro u blank
  cases u with
  | nil => rfl
  | cons c u =>
      have rejects : ¬ accepts c = true := by
        intro accepted
        rw [blank_cons_iff, shown c accepted] at blank
        cases blank.1
      rw [satisfy, if_neg rejects]

protected theorem exactly {text : String} {c : Char} {more : List Char}
    (start : text.toList = c :: more) (shown : isBlank c = false) : Needs (exactly text) := by
  intro u blank
  cases found : exactly text u with
  | none => rfl
  | some x =>
      rw [exactly_eq_some_iff.mp found, start, List.cons_append, blank_cons_iff, shown] at blank
      cases blank.1

theorem blanks_bind {f : Unit → Scan α} (failed : f () [] = none) : Needs (blanks >>= f) := by
  intro u blank
  refine (bind_of_some (v := []) ?_).trans failed
  rw [blanks, skipBlanks_of_blank blank]

protected theorem padded (failed : p [] = none) : Needs (padded p) :=
  blanks_bind (bind_of_none failed)

protected theorem symbol {text : String} (failed : exactly text [] = none) :
    Needs (symbol text) := .padded failed

end Needs

/-- Fails where the text starts with one of some characters. -/
def Refuses (cs : List Char) (p : Scan α) : Prop := ∀ c ∈ cs, ∀ w, p (c :: w) = none

namespace Refuses

variable {cs : List Char} {p q : Scan α}

protected theorem failure (cs : List Char) : Refuses cs (failure : Scan α) := fun _ _ _ => rfl

protected theorem bind (refuses : Refuses cs p) (f : α → Scan β) : Refuses cs (p >>= f) :=
  fun c isElement w => bind_of_none (refuses c isElement w)

protected theorem orElse (first : Refuses cs p) (second : Refuses cs q) :
    Refuses cs (p <|> q) := by
  intro c isElement w
  rw [orElse_of_none (first c isElement w)]
  exact second c isElement w

protected theorem satisfy {accepts : Char → Bool} (rejects : cs.any accepts = false) :
    Refuses cs (satisfy accepts) := by
  intro c isElement w
  rw [satisfy, if_neg (List.any_eq_false.mp rejects c isElement)]

protected theorem exactly {text : String} {d : Char} {more : List Char}
    (start : text.toList = d :: more) (other : d ∉ cs) : Refuses cs (exactly text) := by
  intro c isElement w
  cases found : exactly text (c :: w) with
  | none => rfl
  | some x =>
      have same := exactly_eq_some_iff.mp found
      rw [start, List.cons_append, List.cons.injEq] at same
      exact absurd (same.1 ▸ isElement) other

protected theorem padded (shown : cs.any isBlank = false) (refuses : Refuses cs p) :
    Refuses cs (padded p) := by
  intro c isElement w
  have isShown : isBlank c = false := eq_false_of_ne_true (List.any_eq_false.mp shown c isElement)
  have skipped : blanks (c :: w) = some ((), c :: w) :=
    congrArg (fun r => some ((), r)) (skipBlanks_cons_of_shown isShown w)
  exact (bind_of_some skipped).trans (bind_of_none (refuses c isElement w))

protected theorem symbol {text : String} {d : Char} {more : List Char}
    (shown : cs.any isBlank = false) (start : text.toList = d :: more) (other : d ∉ cs) :
    Refuses cs (symbol text) := .padded shown (.exactly start other)

end Refuses

/-- A word is not read where another character stands. -/
theorem exactly_of_ne {text : String} {c d : Char} {more : List Char}
    (start : text.toList = d :: more) (other : d ≠ c) (w : List Char) :
    exactly text (c :: w) = none := by
  have refuses : Refuses [c] (exactly text) :=
    .exactly start fun same => other (List.mem_singleton.mp same)
  exact refuses c List.mem_cons_self w

theorem symbol_of_ne {text : String} {c d : Char} {more : List Char}
    (start : text.toList = d :: more) (other : d ≠ c) (shown : isBlank c = false)
    (w : List Char) : symbol text (c :: w) = none := by
  have refuses : Refuses [c] (symbol text) := by
    refine .symbol ?_ start fun same => other (List.mem_singleton.mp same)
    rw [List.any_cons, shown]
    rfl
  exact refuses c List.mem_cons_self w

/-! ## How a text starts -/

/-- The text starts with one of some characters. -/
def Starts (cs u : List Char) : Prop := ∃ c w, u = c :: w ∧ c ∈ cs

namespace Starts

variable {cs ds u : List Char}

theorem none {p : Scan α} (starts : Starts cs u) (refuses : Refuses cs p) : p u = .none := by
  obtain ⟨c, w, rfl, isElement⟩ := starts
  exact refuses c isElement w

theorem shown (starts : Starts cs u) (shown : cs.any isBlank = false) : skipBlanks u = u := by
  obtain ⟨c, w, rfl, isElement⟩ := starts
  exact skipBlanks_cons_of_shown (eq_false_of_ne_true (List.any_eq_false.mp shown c isElement)) w

theorem mono (starts : Starts cs u) (subset : ∀ c ∈ cs, c ∈ ds) : Starts ds u := by
  obtain ⟨c, w, rfl, isElement⟩ := starts
  exact ⟨c, w, rfl, subset c isElement⟩

end Starts

/-- The text is over, or goes on with one of some characters. -/
def Stops (cs u : List Char) : Prop := u = [] ∨ Starts cs u

namespace Stops

variable {cs ds u : List Char}

theorem none {p : Scan α} (stops : Stops cs u) (nothing : p [] = .none) (refuses : Refuses cs p) :
    p u = .none := by
  rcases stops with rfl | starts
  · exact nothing
  · exact starts.none refuses

theorem shown (stops : Stops cs u) (shown : cs.any isBlank = false) : skipBlanks u = u := by
  rcases stops with rfl | starts
  · rfl
  · exact starts.shown shown

theorem mono (stops : Stops cs u) (subset : ∀ c ∈ cs, c ∈ ds) : Stops ds u :=
  stops.imp_right fun starts => starts.mono subset

end Stops

/-! ## Lists -/

/-- A list with commas is read where each of its items is, in front of what may follow one. -/
theorem separated_intercalate (follows : List Char → Prop) {text : β → List Char} {value : β → α}
    {p : Scan α} {bs : List β} {r : List Char}
    (read : ∀ b ∈ bs, ∀ w, follows w → p (skipBlanks (text b ++ w)) = some (value b, w))
    (comma : ∀ w, follows (',' :: w)) (last : follows r) (shown : skipBlanks r = r)
    (nothing : bs = [] → p r = none) (stop : symbol "," r = none) :
    separated p (symbol ",") (skipBlanks ([',', ' '].intercalate (bs.map text) ++ r)) =
      some (bs.map value, r) := by
  cases bs with
  | nil =>
      rw [List.map_nil, List.intercalate_nil, List.nil_append, shown]
      exact orElse_of_none (bind_of_none (nothing rfl))
  | cons b bs =>
      obtain ⟨first, others⟩ := List.forall_mem_cons.mp read
      have next : ∀ c ∈ bs, ∀ w, follows w →
          (do symbol ","; p : Scan α) ([',', ' '] ++ text c ++ w) = some (value c, w) := by
        intro c isElement w followed
        have between : symbol "," ([',', ' '] ++ text c ++ w) =
            some ((), skipBlanks (text c ++ w)) := rfl
        exact (bind_of_some between).trans (others c isElement w followed)
      have items : itemsOf (do symbol ","; p : Scan α)
          (bs.flatMap (fun c => [',', ' '] ++ text c) ++ r) = (bs.map value, r) :=
        itemsOf_flatMap follows next (fun _ _ => nofun) (fun c _ w => comma _) last
          (bind_of_none stop)
      have followed : follows (bs.flatMap (fun c => [',', ' '] ++ text c) ++ r) := by
        cases bs with
        | nil => exact last
        | cons c bs => exact comma _
      rw [List.map_cons, intercalate_cons, List.flatMap_map, List.append_assoc]
      have rest : many (do symbol ","; p : Scan α)
          (bs.flatMap (fun c => [',', ' '] ++ text c) ++ r) = some (bs.map value, r) :=
        congrArg some items
      exact orElse_of_some ((bind_of_some (first _ followed)).trans (bind_of_some rest))

/-! ## Where a reader ends -/

/-- A character that is no blank, and with which a text is ended. -/
def closes (c : Char) : Bool := !(isBlank c || c == '>' || c == '?')

theorem closes_iff {c : Char} : closes c = true ↔ isBlank c = false ∧ c ≠ '>' ∧ c ≠ '?' := by
  simp [closes, and_assoc]

/-- What the reader takes does not end in the closing bracket of type arguments or in a question
mark, if nothing but blanks is left. -/
def Finishes (p : Scan α) : Prop := ∀ u a r, p u = some (a, r) → Blank r → Ended u

namespace Finishes

variable {p q : Scan α} {f : α → Scan β}

protected theorem pure (a : α) : Finishes (pure a : Scan α) := by
  intro u b r read blank
  obtain ⟨-, rfl⟩ := Prod.mk.inj (Option.some.inj read)
  exact blank.ended

protected theorem failure : Finishes (failure : Scan α) := fun _ _ _ read => nomatch read

protected theorem bind (first : Finishes p) (leaves : Leaves 0 p)
    (second : ∀ a, Finishes (f a)) : Finishes (p >>= f) := by
  intro u b r read blank
  obtain ⟨a, v, left, right⟩ := bind_eq_some_iff.mp read
  have ended := second a v b r right blank
  by_cases isOver : Blank v
  · exact first u a v left isOver
  · exact ended.of_nonblank isOver (leaves u a v left).1

/-- Where the last part of a reader needs a character, it alone says how the reader ends. -/
theorem bind_last (leaves : Leaves 0 p) (last : ∀ a, Finishes (f a)) (needs : ∀ a, Needs (f a)) :
    Finishes (p >>= f) := by
  intro u b r read blank
  obtain ⟨a, v, left, right⟩ := bind_eq_some_iff.mp read
  refine (last a v b r right blank).of_nonblank (fun isOver => ?_) (leaves u a v left).1
  rw [needs a v isOver] at right
  cases right

theorem bind_pure (first : Finishes p) (leaves : Leaves 0 p) (g : α → β) :
    Finishes (do let a ← p; pure (g a)) := first.bind leaves fun a => .pure (g a)

protected theorem enclosed {opening closing : Scan β} (start : Leaves 0 opening)
    (leaves : Leaves 0 p) (stop : Finishes closing) (stops : Leaves 0 closing)
    (needs : Needs closing) : Finishes (enclosed opening p closing) := by
  intro u a r read blank
  obtain ⟨_, v, left, rest⟩ := bind_eq_some_iff.mp read
  obtain ⟨b, w, inside, right⟩ := bind_eq_some_iff.mp rest
  have ended : Ended w := stop.bind_pure stops (fun _ => b) w a r right blank
  refine ended.of_nonblank (fun isOver => ?_) ((leaves v b w inside).1.trans (start u _ v left).1)
  rw [needs.bind _ w isOver] at right
  cases right

protected theorem orElse (first : Finishes p) (second : Finishes q) : Finishes (p <|> q) := by
  intro u a r read
  cases found : p u with
  | none =>
      rw [orElse_of_none found] at read
      exact second u a r read
  | some x =>
      rw [orElse_of_some found] at read
      exact first u a r (found.trans read)

protected theorem satisfy {accepts : Char → Bool}
    (rejects : accepts '>' = false ∧ accepts '?' = false) : Finishes (satisfy accepts) := by
  intro u c r read blank
  cases u with
  | nil => cases read
  | cons d u =>
      rw [satisfy] at read
      split at read
      case isTrue accepted =>
        obtain ⟨rfl, rfl⟩ := Prod.mk.inj (Option.some.inj read)
        refine blank.ended_cons ⟨?_, ?_⟩
        · rintro rfl
          rw [rejects.1] at accepted
          cases accepted
        · rintro rfl
          rw [rejects.2] at accepted
          cases accepted
      case isFalse => cases read

protected theorem exactly {text : String} (closes : text.toList.getLast?.any closes = true) :
    Finishes (exactly text) := by
  intro u a r read blank
  obtain ⟨c, isLast, isClosing⟩ := (Option.any_eq_true _ _).mp closes
  obtain ⟨shown, last⟩ := closes_iff.mp isClosing
  obtain ⟨lead, spelled⟩ := List.getLast?_eq_some_iff.mp isLast
  rw [exactly_eq_some_iff.mp read, spelled, List.append_assoc]
  refine (blank.ended_cons last).of_nonblank ?_ (List.suffix_append lead _)
  rw [blank_cons_iff, shown]
  exact fun holds => nomatch holds.1

protected theorem blanks : Finishes blanks := by
  intro u a r read blank
  obtain ⟨-, rfl⟩ := Prod.mk.inj (Option.some.inj read)
  exact (blank_of_skipBlanks blank).ended

protected theorem many (finishes : Finishes p) (leaves : Leaves 0 p) : Finishes (many p) := by
  have items (u : List Char) (blank : Blank (itemsOf p u).2) : Ended u := by
    fun_induction itemsOf p u with
    | case1 u _ => exact blank.ended
    | case2 u a r read _ as rest others inductionHypothesis =>
        rw [others] at inductionHypothesis
        have ended := inductionHypothesis blank
        by_cases isOver : Blank r
        · exact finishes u a r read isOver
        · exact ended.of_nonblank isOver (leaves u a r read).1
    | case3 u a r _ _ => exact blank.ended
  intro u as r read blank
  refine items u ?_
  rw [show itemsOf p u = (as, r) from Option.some.inj read]
  exact blank

end Finishes

/-- Blanks in front of the text do not matter. -/
def Skips (p : Scan α) : Prop := ∀ u, p (skipBlanks u) = p u

namespace Skips

variable {p q : Scan α}

protected theorem bind (skips : Skips p) (f : α → Scan β) : Skips (p >>= f) := by
  intro u
  rw [bind_apply, bind_apply, skips u]

protected theorem orElse (first : Skips p) (second : Skips q) : Skips (p <|> q) := by
  intro u
  change (p (skipBlanks u) <|> q (skipBlanks u)) = (p u <|> q u)
  rw [first u, second u]

protected theorem blanks : Skips blanks :=
  fun u => congrArg (fun r => some ((), r)) (skipBlanks_skipBlanks u)

protected theorem padded (p : Scan α) : Skips (padded p) := Skips.blanks.bind _

protected theorem symbol (text : String) : Skips (symbol text) := .padded _

/-- Blanks in front of what is put behind a text do not matter either. -/
theorem append_of_blank {c : Char} {u more : List Char} (skips : Skips p) (blank : Blank u)
    (shown : isBlank c = false) : p (u ++ c :: more) = p (c :: more) := by
  rw [← skips (u ++ c :: more), skipBlanks_append shown u, skipBlanks_of_blank blank,
    List.nil_append]

end Skips

end Scan

end ManagedDebugger.Text
