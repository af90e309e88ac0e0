import ManagedDebugger.Proofs.Expr.Access
import ManagedDebugger.Proofs.Expr.Precedence

/-!
# Reading chains of operands

The reader of a level reads operands of the level before it with the operators of its own level
between them. Of a chain it takes the front part whose operators belong to its level or a tighter
one, and puts it together as the table of precedence has it; the reader of the loosest level takes
it all.
-/

namespace ManagedDebugger.Expr

open Text
open Text.Scan

/-! ## Operators -/

/-- A word without blanks is read from a text with a blank behind if the text starts with it. -/
theorem after?_append_blank {lead : List Char} (solid : ' ' ∉ lead) (text w : List Char) :
    after? lead (text ++ ' ' :: w) =
      if lead.isPrefixOf text then some (text.drop lead.length ++ ' ' :: w) else none := by
  induction lead generalizing text with
  | nil => rfl
  | cons c lead inductionHypothesis =>
      have other : c ≠ ' ' := fun same => solid (same ▸ List.mem_cons_self)
      have rest := inductionHypothesis fun isElement => solid (List.mem_cons_of_mem c isElement)
      cases text with
      | nil => exact if_neg other
      | cons d text =>
          rw [List.cons_append, after?, rest, List.isPrefixOf_cons_cons]
          by_cases same : c = d
          · simp [same]
          · simp [same]

/-- The symbol of an operator starts with that of another one. -/
def startsWith (op lead : BinaryOp) : Bool := lead.symbol.toList.isPrefixOf op.symbol.toList

/-- What is left of the symbol of an operator when another one has been read from it. -/
def leftover (op lead : BinaryOp) : List Char := op.symbol.toList.drop lead.symbol.toList.length

/-- What is read of an operator with a blank behind. -/
theorem symbol_before_blank {text : String} (solid : ' ' ∉ text.toList) (op : BinaryOp)
    (w : List Char) : symbol text (op.symbol.toList ++ ' ' :: w) =
      if text.toList.isPrefixOf op.symbol.toList then
        some ((), skipBlanks (op.symbol.toList.drop text.toList.length ++ ' ' :: w))
      else none := by
  have skipped : skipBlanks (op.symbol.toList ++ ' ' :: w) = op.symbol.toList ++ ' ' :: w := by
    cases op <;> rfl
  have found := after?_append_blank solid op.symbol.toList w
  have read : symbol text (op.symbol.toList ++ ' ' :: w) =
      (exactly text >>= fun _ => blanks >>= fun _ => pure ())
        (skipBlanks (op.symbol.toList ++ ' ' :: w)) := rfl
  rw [read, skipped, bind_apply, exactly, found]
  split <;> rfl

theorem symbol_operator (op lead : BinaryOp) (w : List Char) :
    symbol lead.symbol (op.symbol.toList ++ ' ' :: w) =
      if startsWith op lead then some ((), skipBlanks (leftover op lead ++ ' ' :: w)) else none :=
  symbol_before_blank (by cases lead <;> decide) op w

/-- Of a list of operators the first one is read with which the symbol in front starts. -/
theorem operator_operator (ops : List BinaryOp) (op : BinaryOp) (w : List Char) :
    operator BinaryOp.symbol ops (op.symbol.toList ++ ' ' :: w) =
      (ops.find? (startsWith op)).map fun lead =>
        (lead, skipBlanks (leftover op lead ++ ' ' :: w)) := by
  induction ops with
  | nil => rfl
  | cons lead ops inductionHypothesis =>
      have read := symbol_operator op lead w
      cases starts : startsWith op lead with
      | false =>
          rw [starts] at read
          rw [List.find?_cons_of_neg (by rw [starts]; decide), ← inductionHypothesis]
          exact orElse_of_none (bind_of_none read)
      | true =>
          rw [starts] at read
          rw [List.find?_cons_of_pos starts]
          exact orElse_of_some (bind_of_some read)

/-- The characters that are left where `&&` and `||` are taken for `&` and `|`. -/
def loneChars : List Char := ['&', '|']

/-- The operators of a level: its own are read as themselves, and what is left of a looser one with
which one of them has been mistaken is no operand. -/
structure IsLevel (k : Nat) (ops : List BinaryOp) : Prop where
  own : ∀ op, op.level = k → ops.find? (startsWith op) = some op ∧ op.groupsRight = false
  looser : ∀ op, k < op.level → ∀ lead, ops.find? (startsWith op) = some lead →
    ∃ c ∈ loneChars, leftover op lead = [c]

theorem isLevel_leftLevels : ∀ x ∈ leftLevels.zipIdx, IsLevel x.2 x.1 := by
  have table : ∀ x ∈ leftLevels.zipIdx, ∀ op ∈ BinaryOp.all,
      (op.level = x.2 → x.1.find? (startsWith op) = some op ∧ op.groupsRight = false) ∧
        (x.2 < op.level → ∀ lead ∈ x.1.find? (startsWith op),
          leftover op lead ∈ loneChars.map fun c => [c]) := by
    decide +kernel
  intro x isElement
  refine ⟨fun op => (table x isElement op op.mem_all).1, fun op isLooser lead found => ?_⟩
  have lone := (table x isElement op op.mem_all).2 isLooser lead found
  obtain ⟨c, isLone, left⟩ := List.mem_map.mp lone
  exact ⟨c, isLone, left.symm⟩

theorem skips_operator {α : Type} (symbolOf : α → String) (ops : List α) :
    Skips (operator symbolOf ops) := by
  induction ops with
  | nil => exact fun _ => rfl
  | cons op ops inductionHypothesis => exact ((Skips.symbol _).bind _).orElse inductionHypothesis

/-- No operator goes on with what follows a term. -/
theorem postfixPart_operator (depth : Nat) (inner : Scan Expr) (op : BinaryOp) (w : List Char) :
    postfixPart depth inner (op.symbol.toList ++ ' ' :: w) = none := by
  have refused {text : String} (solid : ' ' ∉ text.toList)
      (other : text.toList.isPrefixOf op.symbol.toList = false) :
      symbol text (op.symbol.toList ++ ' ' :: w) = none := by
    rw [symbol_before_blank solid, other]
    rfl
  refine (orElse_of_none (bind_of_none (refused (by decide) (by cases op <;> rfl)))).trans ?_
  refine (orElse_of_none (bind_of_none (refused (by decide) (by cases op <;> rfl)))).trans ?_
  refine (orElse_of_none (bind_of_none (bind_of_none
    (refused (by decide) (by cases op <;> rfl))))).trans ?_
  refine (orElse_of_none (bind_of_none (bind_of_none
    (refused (by decide) (by cases op <;> rfl))))).trans ?_
  exact bind_of_none (bind_of_none (refused (by decide) (by cases op <;> rfl)))

/-! ## Unary operators -/

theorem skips_unaryLevel {operand : Scan Expr} (skips : Skips operand) :
    Skips (unaryLevel operand) := by
  intro u
  cases read : operator UnaryOp.symbol UnaryOp.all u with
  | none =>
      have read' := (skips_operator UnaryOp.symbol UnaryOp.all u).trans read
      have nothing : many (operator UnaryOp.symbol UnaryOp.all) u = some ([], u) :=
        congrArg some (itemsOf_of_none read)
      have nothing' : many (operator UnaryOp.symbol UnaryOp.all) (skipBlanks u) =
          some ([], skipBlanks u) := congrArg some (itemsOf_of_none read')
      refine (bind_of_some nothing').trans (Eq.trans ?_ (bind_of_some nothing).symm)
      exact skips.bind _ u
  | some x =>
      obtain ⟨op, r⟩ := x
      have read' := (skips_operator UnaryOp.symbol UnaryOp.all u).trans read
      have shorter := (leaves_unary _ u op r read).2
      have shorter' := (leaves_unary _ (skipBlanks u) op r read').2
      have same : many (operator UnaryOp.symbol UnaryOp.all) (skipBlanks u) =
          many (operator UnaryOp.symbol UnaryOp.all) u :=
        congrArg some ((itemsOf_of_some read' shorter').trans (itemsOf_of_some read shorter).symm)
      rw [unaryLevel, bind_apply, bind_apply, same]

theorem unaryLevel_cons {operand : Scan Expr} {e : Expr} {u r : List Char} (skips : Skips operand)
    (op : UnaryOp) (read : unaryLevel operand u = some (e, r)) :
    unaryLevel operand (op.symbol.toList ++ u) = some (.unary op e, r) := by
  have first : operator UnaryOp.symbol UnaryOp.all (op.symbol.toList ++ u) =
      some (op, skipBlanks u) := by cases op <;> rfl
  rw [← skips_unaryLevel skips] at read
  obtain ⟨ops, v, list, rest⟩ := bind_eq_some_iff.mp read
  obtain ⟨inside, w, last, same⟩ := bind_eq_some_iff.mp rest
  obtain ⟨rfl, rfl⟩ := Prod.mk.inj (Option.some.inj same)
  have shorter := (leaves_unary _ _ _ _ first).2
  have items := itemsOf_of_some first shorter
  rw [show itemsOf (operator UnaryOp.symbol UnaryOp.all) (skipBlanks u) = (ops, v) from
    Option.some.inj list] at items
  have all : many (operator UnaryOp.symbol UnaryOp.all) (op.symbol.toList ++ u) =
      some (op :: ops, v) := congrArg some items
  exact (bind_of_some all).trans (bind_of_some last)

theorem refuses_unaryLevel {cs : List Char} {operand : Scan Expr} (refuses : Refuses cs operand)
    (shown : cs.any isBlank = false) (others : cs.any unaryChars.contains = false) :
    Refuses cs (unaryLevel operand) := by
  have starts (op : UnaryOp) : ∃ c more, op.symbol.toList = c :: more ∧ c ∉ cs := by
    have other {c : Char} (isUnary : unaryChars.contains c = true) : c ∉ cs :=
      fun isElement => List.any_eq_false.mp others c isElement isUnary
    cases op <;> exact ⟨_, _, rfl, other rfl⟩
  intro c isElement w
  have nothing : many (operator UnaryOp.symbol UnaryOp.all) (c :: w) = some ([], c :: w) :=
    congrArg some (itemsOf_of_none (refuses_operator shown starts _ c isElement w))
  exact (bind_of_some nothing).trans (bind_of_none (refuses c isElement w))

theorem skips_leftLevels (levels : List (List BinaryOp)) {operand : Scan Expr}
    (skips : Skips operand) :
    Skips (levels.foldl (fun operand ops => leftLevel ops operand) operand) := by
  induction levels generalizing operand with
  | nil => exact skips
  | cons ops levels inductionHypothesis => exact inductionHypothesis (skips.bind _)

theorem skips_expression (depth : Nat) : Skips (expression depth) := by
  cases depth with
  | zero => exact fun _ => rfl
  | succ depth =>
      exact (skips_leftLevels leftLevels (skips_unaryLevel ((skips_term _ _).bind _))).bind _

/-! ## Chains -/

/-- How operands are written, and what they are read as. -/
structure Spelling (α : Type) where
  text : α → List Char
  expr : α → Expr

/-- Here no operator stands. -/
structure Halts (r : List Char) : Prop where
  binary : ∀ ops, operator BinaryOp.symbol ops r = none
  coalesce : symbol "??" r = none

namespace Spelling

variable {α : Type} (s : Spelling α) (r : List Char)

/-- What stands behind an operand: operators with the operands behind them, and `r` at the end. -/
def behind : List (BinaryOp × α) → List Char
  | [] => r
  | (op, b) :: rest => ' ' :: (op.symbol.toList ++ ' ' :: (s.text b ++ behind rest))

/-- Each operand of a chain is read where it stands. -/
inductive Legible (p : Scan Expr) : α → List (BinaryOp × α) → Prop
  | last {a : α} : p (s.text a ++ r) = some (s.expr a, skipBlanks r) → Legible p a []
  | next {a b : α} {op : BinaryOp} {rest : List (BinaryOp × α)} :
      p (s.text a ++ s.behind r ((op, b) :: rest)) =
        some (s.expr a, skipBlanks (s.behind r ((op, b) :: rest))) →
      Legible p b rest → Legible p a ((op, b) :: rest)

/-- The reader takes a tree from the front of a chain and leaves the operators from level `k` on. -/
structure Takes (k : Nat) (c : Chain α) (t : OperatorTree α) (later : List (BinaryOp × α)) :
    Prop where
  chain : ⟨t.chain.first, t.chain.rest ++ later⟩ = c
  grouped : t.Grouped
  tight : ∀ op ∈ t.outermost?, op.level < k
  stops : ∀ x ∈ later.head?, k ≤ x.1.level

/-- A reader of what the levels before level `k` put together, where `p` reads operands. -/
structure ReadsLevel (p : Scan Expr) (k : Nat) (q : Scan Expr) : Prop where
  skips : Skips q
  refuses : Refuses loneChars q
  takes : ∀ a rest, s.Legible r p a rest → ∃ t later,
    q (s.text a ++ s.behind r rest) = some (t.toExpr s.expr, skipBlanks (s.behind r later)) ∧
      Takes k ⟨a, rest⟩ t later

variable {s r} {p q : Scan Expr} {k : Nat}

theorem Legible.read {a : α} {rest : List (BinaryOp × α)} (legible : s.Legible r p a rest) :
    p (s.text a ++ s.behind r rest) = some (s.expr a, skipBlanks (s.behind r rest)) := by
  cases legible with
  | last read => exact read
  | next read _ => exact read

theorem Legible.later {a b : α} {op : BinaryOp} {taken rest : List (BinaryOp × α)}
    (legible : s.Legible r p a (taken ++ (op, b) :: rest)) : s.Legible r p b rest := by
  induction taken generalizing a with
  | nil =>
      cases legible with
      | next _ later => exact later
  | cons x taken inductionHypothesis =>
      cases legible with
      | next _ later => exact inductionHypothesis later

theorem behind_suffix (taken rest : List (BinaryOp × α)) :
    s.behind r rest <:+ s.behind r (taken ++ rest) := by
  induction taken with
  | nil => exact List.suffix_rfl
  | cons x taken inductionHypothesis =>
      have rest : s.behind r (taken ++ rest) <:+
          ' ' :: (x.1.symbol.toList ++ ' ' :: (s.text x.2 ++ s.behind r (taken ++ rest))) :=
        (List.suffix_append _ _).trans <| (List.suffix_cons _ _).trans <|
          (List.suffix_append _ _).trans (List.suffix_cons _ _)
      exact inductionHypothesis.trans rest

theorem skipBlanks_behind (op : BinaryOp) (b : α) (rest : List (BinaryOp × α)) :
    skipBlanks (s.behind r ((op, b) :: rest)) =
      op.symbol.toList ++ ' ' :: (s.text b ++ s.behind r rest) := by
  cases op <;> rfl

/-- What is left of a chain is shorter than the chain from an operator before it on. -/
theorem behind_shorter (op : BinaryOp) (b : α) (taken later : List (BinaryOp × α)) :
    (skipBlanks (s.behind r later)).length <
      (skipBlanks (s.behind r ((op, b) :: (taken ++ later)))).length := by
  have suffix : s.behind r later <:+ s.behind r (taken ++ later) := behind_suffix taken later
  have le := Nat.le_trans (skipBlanks_length_le _) suffix.length_le
  rw [skipBlanks_behind, List.length_append, List.length_cons, List.length_append]
  omega

theorem leftover_self (op : BinaryOp) : leftover op op = [] := List.drop_length ..

/-- An operator with its operand. -/
def item (ops : List BinaryOp) (q : Scan Expr) : Scan (BinaryOp × Expr) := do
  let op ← operator BinaryOp.symbol ops
  let e ← q
  pure (op, e)

/-- An expression and, to its left, operators of one level. -/
def joinLeft (left : Expr) : BinaryOp × Expr → Expr
  | (op, right) => .binary op left right

section

variable {ops : List BinaryOp} (level : IsLevel k ops) (reads : s.ReadsLevel r p k q)
include level reads

/-- An operator of the level, and the operand behind it. -/
theorem item_own {op : BinaryOp} (own : op.level = k) {b : α} {rest : List (BinaryOp × α)}
    (legible : s.Legible r p b rest) : ∃ t later,
      item ops q (skipBlanks (s.behind r ((op, b) :: rest))) =
        some ((op, t.toExpr s.expr), skipBlanks (s.behind r later)) ∧
      Takes k ⟨b, rest⟩ t later := by
  obtain ⟨t, later, read, takes⟩ := reads.takes b rest legible
  refine ⟨t, later, ?_, takes⟩
  have found : operator BinaryOp.symbol ops (skipBlanks (s.behind r ((op, b) :: rest))) =
      some (op, skipBlanks (s.text b ++ s.behind r rest)) := by
    rw [skipBlanks_behind, operator_operator, (level.own op own).1, Option.map_some, leftover_self]
    rfl
  rw [← reads.skips] at read
  exact (bind_of_some found).trans (bind_of_some read)

/-- Before a looser operator the level is over. -/
theorem item_looser {op : BinaryOp} (looser : k < op.level) (b : α)
    (rest : List (BinaryOp × α)) :
    item ops q (skipBlanks (s.behind r ((op, b) :: rest))) = none := by
  rw [skipBlanks_behind]
  cases found : ops.find? (startsWith op) with
  | none =>
      refine bind_of_none ?_
      rw [operator_operator, found]
      rfl
  | some lead =>
      obtain ⟨c, isLone, left⟩ := level.looser op looser lead found
      have taken := operator_operator ops op (s.text b ++ s.behind r rest)
      rw [found, Option.map_some, left] at taken
      have shown : isBlank c = false := by
        have none : loneChars.any isBlank = false := rfl
        exact eq_false_of_ne_true (List.any_eq_false.mp none c isLone)
      refine (bind_of_some taken).trans (bind_of_none ?_)
      exact (congrArg q (skipBlanks_cons_of_shown shown _)).trans (reads.refuses c isLone _)

/-- What the level joins to the tree in front. -/
theorem joined_level (halts : Halts r) (later : List (BinaryOp × α))
    (legible : ∀ op b rest, later = (op, b) :: rest → s.Legible r p b rest)
    (stops : ∀ x ∈ later.head?, k ≤ x.1.level) {t : OperatorTree α} (grouped : t.Grouped)
    (tight : ∀ op ∈ t.outermost?, op.level ≤ k) : ∃ t' last,
      joined joinLeft (item ops q) (t.toExpr s.expr) (skipBlanks (s.behind r later)) =
        some (t'.toExpr s.expr, skipBlanks (s.behind r last)) ∧
      Takes (k + 1) ⟨t.chain.first, t.chain.rest ++ later⟩ t' last := by
  induction size : later.length using Nat.strongRecOn generalizing later t with
  | ind n inductionHypothesis =>
      have tight' : ∀ op ∈ t.outermost?, op.level < k + 1 :=
        fun op isOutermost => Nat.lt_succ_of_le (tight op isOutermost)
      cases later with
      | nil =>
          refine ⟨t, [], joined_of_none (bind_of_none ?_), rfl, grouped, tight', nofun⟩
          rw [behind, skips_operator BinaryOp.symbol ops r, halts.binary ops]
      | cons x rest =>
          obtain ⟨op, b⟩ := x
          rcases Nat.lt_or_eq_of_le (stops _ rfl) with looser | own
          · refine ⟨t, (op, b) :: rest, joined_of_none (item_looser level reads looser b rest), rfl,
              grouped, tight', fun x isHead => ?_⟩
            obtain rfl := Option.some.inj isHead
            exact looser
          · have legible := legible op b rest rfl
            obtain ⟨u, later, read, takes⟩ := item_own level reads own.symm legible
            obtain ⟨rfl, rfl⟩ := Chain.mk.inj takes.chain
            have holdsLeft : ∀ inner ∈ t.outermost?, op.HoldsLeft inner := fun inner isOutermost =>
              (Nat.lt_or_eq_of_le (own ▸ tight inner isOutermost)).imp_right fun same =>
                ⟨same, (level.own op own.symm).2⟩
            have holdsRight : ∀ inner ∈ u.outermost?, op.HoldsRight inner :=
              fun inner isOutermost => .inl (own ▸ takes.tight inner isOutermost)
            have atLevel : ∀ outer ∈ (OperatorTree.binary op t u).outermost?, outer.level ≤ k := by
              intro outer isOutermost
              obtain rfl := Option.some.inj isOutermost
              exact Nat.le_of_eq own.symm
            have fewer : later.length < n := by
              rw [← size, List.length_cons, List.length_append]
              omega
            obtain ⟨t', last, others, takes'⟩ := inductionHypothesis later.length fewer later
              (fun op' b' rest' same => (same ▸ legible).later) takes.stops
              (grouped.binary takes.grouped holdsLeft holdsRight) atLevel rfl
            refine ⟨t', last, (joined_of_some read (behind_shorter op _ _ later)).trans others, ?_⟩
            rwa [OperatorTree.chain, List.append_assoc] at takes'

/-- The next level. -/
theorem readsLevel_succ (halts : Halts r) : s.ReadsLevel r p (k + 1) (leftLevel ops q) where
  skips := reads.skips.bind _
  refuses := reads.refuses.bind _
  takes a rest legible := by
    obtain ⟨t, later, read, takes⟩ := reads.takes a rest legible
    obtain ⟨rfl, rfl⟩ := Chain.mk.inj takes.chain
    obtain ⟨t', last, others, takes'⟩ := joined_level level reads halts later
      (fun op b rest same => (same ▸ legible).later) takes.stops takes.grouped
      fun op isOutermost => Nat.le_of_lt (takes.tight op isOutermost)
    exact ⟨t', last, (bind_of_some read).trans others, takes'⟩

end

/-- An operand alone is what is read before all levels. -/
theorem readsLevel_zero (skips : Skips p) (refuses : Refuses loneChars p) :
    s.ReadsLevel r p 0 p where
  skips := skips
  refuses := refuses
  takes a rest legible := ⟨.operand a, rest, legible.read, rfl, .operand a, nofun,
    fun _ _ => Nat.zero_le _⟩

theorem readsLevel_foldl (halts : Halts r) {levels : List (List BinaryOp)}
    (areLevels : ∀ x ∈ levels.zipIdx k, IsLevel x.2 x.1) (reads : s.ReadsLevel r p k q) :
    s.ReadsLevel r p (k + levels.length)
      (levels.foldl (fun operand ops => leftLevel ops operand) q) := by
  induction levels generalizing k q with
  | nil => exact reads
  | cons ops levels inductionHypothesis =>
      rw [List.zipIdx_cons, List.forall_mem_cons] at areLevels
      have others := inductionHypothesis areLevels.2 (readsLevel_succ areLevels.1 reads halts)
      rwa [Nat.add_assoc, Nat.add_comm 1] at others

end Spelling

/-- A coalescing operator with all behind it as its right operand. -/
theorem coalesceLevel_of_next {q : Scan Expr} {e second e' : Expr} {u v w x r : List Char}
    (first : q u = some (e, v)) (next : symbol "??" v = some ((), w))
    (read : q w = some (second, x)) (shorter : x.length < v.length)
    (others : coalesceLevel q w = some (e', r)) :
    coalesceLevel q u = some (.binary .coalesce e e', r) := by
  obtain ⟨items, y, list, last⟩ := bind_eq_some_iff.mp ((bind_of_some read).symm.trans others)
  obtain ⟨rfl, rfl⟩ := Prod.mk.inj (Option.some.inj last)
  have item : (do symbol "??"; q : Scan Expr) v = some (second, x) := (bind_of_some next).trans read
  have more := itemsOf_of_some item shorter
  rw [show itemsOf (do symbol "??"; q) x = (items, y) from Option.some.inj list] at more
  have all : many (do symbol "??"; q) v = some (second :: items, y) := congrArg some more
  exact (bind_of_some first).trans (bind_of_some all)

namespace Spelling

variable {α : Type} {s : Spelling α} {r : List Char} {p q : Scan Expr}

/-- Of a tree behind whose operators only the coalescing one is left. -/
theorem coalesceLevel_of_legible (reads : s.ReadsLevel r p 10 q) (halts : Halts r) {a : α}
    {rest : List (BinaryOp × α)} (legible : s.Legible r p a rest) :
    ∃ t : OperatorTree α, t.chain = ⟨a, rest⟩ ∧ t.Grouped ∧
      coalesceLevel q (s.text a ++ s.behind r rest) = some (t.toExpr s.expr, skipBlanks r) := by
  induction size : rest.length using Nat.strongRecOn generalizing a rest with
  | ind n inductionHypothesis =>
      obtain ⟨t, later, read, takes⟩ := reads.takes a rest legible
      obtain ⟨rfl, rfl⟩ := Chain.mk.inj takes.chain
      cases later with
      | nil =>
          have ends : many (do symbol "??"; q) (skipBlanks r) = some ([], skipBlanks r) :=
            congrArg some (itemsOf_of_none (bind_of_none ((Skips.symbol _ r).trans halts.coalesce)))
          refine ⟨t, by rw [List.append_nil], takes.grouped, ?_⟩
          exact (bind_of_some read).trans (bind_of_some ends)
      | cons x rest =>
          obtain ⟨op, b⟩ := x
          have isLoosest : op.level = 10 := Nat.le_antisymm op.level_le (takes.stops _ rfl)
          obtain rfl : op = .coalesce := by cases op <;> first | rfl | cases isLoosest
          have legible := legible.later
          have fewer : rest.length < n := by
            rw [← size, List.length_append, List.length_cons]
            omega
          obtain ⟨u, chain, grouped, others⟩ := inductionHypothesis rest.length fewer legible rfl
          obtain ⟨first, later, read', takes'⟩ := reads.takes b rest legible
          obtain ⟨rfl, rfl⟩ := Chain.mk.inj takes'.chain
          have next : symbol "??" (skipBlanks (s.behind r ((.coalesce, first.chain.first) ::
              (first.chain.rest ++ later)))) =
              some ((), skipBlanks (s.text first.chain.first ++
                s.behind r (first.chain.rest ++ later))) := by
            rw [skipBlanks_behind]
            exact symbol_operator .coalesce .coalesce _
          have holdsLeft : ∀ inner ∈ t.outermost?, BinaryOp.coalesce.HoldsLeft inner :=
            fun inner isOutermost => .inl (takes.tight inner isOutermost)
          have holdsRight : ∀ inner ∈ u.outermost?, BinaryOp.coalesce.HoldsRight inner :=
            fun inner _ => (Nat.lt_or_eq_of_le inner.level_le).imp_right fun same => ⟨same, rfl⟩
          refine ⟨.binary .coalesce t u, ?_, takes.grouped.binary grouped holdsLeft holdsRight, ?_⟩
          · rw [OperatorTree.chain, chain]
          · refine coalesceLevel_of_next read next ((reads.skips _).trans read')
              (behind_shorter _ _ _ later) ?_
            exact (reads.skips.bind _ _).trans others

/-- A chain is read as the table of precedence puts it together. -/
theorem expression_of_legible {d : Nat} (halts : Halts r) {a : α} {rest : List (BinaryOp × α)}
    (legible : s.Legible r (unaryLevel (primary (d + 1) (expression d))) a rest) :
    ∃ t : OperatorTree α, t.chain = ⟨a, rest⟩ ∧ t.Grouped ∧
      expression (d + 1) (s.text a ++ s.behind r rest) = some (t.toExpr s.expr, skipBlanks r) := by
  have skips : Skips (unaryLevel (primary (d + 1) (expression d))) :=
    skips_unaryLevel ((skips_term _ _).bind _)
  have refuses : Refuses loneChars (unaryLevel (primary (d + 1) (expression d))) :=
    refuses_unaryLevel ((refuses_term rfl _ _).bind _) rfl rfl
  exact coalesceLevel_of_legible
    (readsLevel_foldl halts isLevel_leftLevels (readsLevel_zero skips refuses)) halts legible

end Spelling

/-- A term with unary operators in front is an expression. -/
theorem expression_of_unaryLevel {d : Nat} {u r : List Char} {e : Expr} (halts : Halts r)
    (read : unaryLevel (primary (d + 1) (expression d)) (u ++ r) = some (e, skipBlanks r)) :
    expression (d + 1) (u ++ r) = some (e, skipBlanks r) := by
  have legible : Spelling.Legible ⟨fun _ : Unit => u, fun _ => e⟩ r
      (unaryLevel (primary (d + 1) (expression d))) () [] := .last read
  obtain ⟨t, chain, -, whole⟩ := Spelling.expression_of_legible halts legible
  cases t with
  | operand a => exact whole
  | binary op left right => exact absurd (Chain.mk.inj chain).2 (by simp)

end ManagedDebugger.Expr
