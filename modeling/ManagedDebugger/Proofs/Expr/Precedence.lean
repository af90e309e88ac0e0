import ManagedDebugger.Proofs.Expr.Readers

/-!
# Precedence of operators

Operands with operators between them can be put together in many ways. The table of precedence
leaves one: an operator holds in its operands, without brackets, only operators of tighter levels
and, on the side to which its level groups, of its own. The readers of the levels, each laid over
the one before, put a chain of operands together in that way.
-/

namespace ManagedDebugger

namespace BinaryOp

/-- The level of an operator in the table of precedence, the tightest level first. -/
def level : BinaryOp → Nat
  | mul | div | rem => 0
  | add | sub => 1
  | shl | shr => 2
  | lt | gt | le | ge => 3
  | eq | ne => 4
  | bitAnd => 5
  | bitXor => 6
  | bitOr => 7
  | and => 8
  | or => 9
  | coalesce => 10

/-- The coalescing operator groups to the right, all others to the left. -/
def groupsRight : BinaryOp → Bool
  | coalesce => true
  | _ => false

/-- What may stand in the left operand of an operator without brackets. -/
def HoldsLeft (op inner : BinaryOp) : Prop :=
  inner.level < op.level ∨ inner.level = op.level ∧ op.groupsRight = false

/-- What may stand in the right operand of an operator without brackets. -/
def HoldsRight (op inner : BinaryOp) : Prop :=
  inner.level < op.level ∨ inner.level = op.level ∧ op.groupsRight = true

theorem mem_all (op : BinaryOp) : op ∈ all := by cases op <;> decide

theorem level_le (op : BinaryOp) : op.level ≤ 10 := by cases op <;> decide

/-- All operators of a level group to the same side. -/
theorem groupsRight_iff (op : BinaryOp) : op.groupsRight = true ↔ op.level = 10 := by
  cases op <;> decide

variable {op inner other : BinaryOp}

theorem HoldsLeft.level_le (holds : op.HoldsLeft inner) : inner.level ≤ op.level :=
  holds.elim Nat.le_of_lt fun same => Nat.le_of_eq same.1

theorem HoldsRight.level_le (holds : op.HoldsRight inner) : inner.level ≤ op.level :=
  holds.elim Nat.le_of_lt fun same => Nat.le_of_eq same.1

theorem HoldsLeft.of_le (holds : op.HoldsLeft inner) (le : other.level ≤ inner.level) :
    op.HoldsLeft other := by
  rcases Nat.lt_or_eq_of_le (Nat.le_trans le holds.level_le) with less | same
  · exact .inl less
  · exact .inr ⟨same, (holds.resolve_left (by omega)).2⟩

theorem HoldsRight.of_le (holds : op.HoldsRight inner) (le : other.level ≤ inner.level) :
    op.HoldsRight other := by
  rcases Nat.lt_or_eq_of_le (Nat.le_trans le holds.level_le) with less | same
  · exact .inl less
  · exact .inr ⟨same, (holds.resolve_left (by omega)).2⟩

/-- Of two operators not both holds the other. -/
theorem HoldsLeft.not_holdsRight (holds : op.HoldsLeft inner) : ¬ inner.HoldsRight op := by
  intro holds'
  have same : inner.level = op.level := Nat.le_antisymm holds.level_le holds'.level_le
  have right : inner.groupsRight = true := (holds'.resolve_left (by omega)).2
  have left : op.groupsRight = false := (holds.resolve_left (by omega)).2
  rw [groupsRight_iff, same, ← groupsRight_iff, left] at right
  cases right

end BinaryOp

/-- An operand, and operators with one more operand behind each. -/
@[ext]
structure Chain (α : Type) where
  first : α
  rest : List (BinaryOp × α)
  deriving DecidableEq, Repr

/-- Operands put together by operators. -/
inductive OperatorTree (α : Type) where
  | operand (a : α)
  | binary (op : BinaryOp) (left right : OperatorTree α)
  deriving DecidableEq, Repr

namespace OperatorTree

variable {α : Type}

/-- The operands from left to right, and the operators between them. -/
def chain : OperatorTree α → Chain α
  | operand a => ⟨a, []⟩
  | binary op left right =>
    ⟨left.chain.first, left.chain.rest ++ (op, right.chain.first) :: right.chain.rest⟩

def outermost? : OperatorTree α → Option BinaryOp
  | operand _ => none
  | binary op _ _ => some op

/-- Every operator holds in its operands what the table of precedence lets it hold. -/
inductive Grouped : OperatorTree α → Prop
  | operand (a : α) : Grouped (.operand a)
  | binary {op : BinaryOp} {left right : OperatorTree α} : Grouped left → Grouped right →
      (∀ inner ∈ left.outermost?, op.HoldsLeft inner) →
      (∀ inner ∈ right.outermost?, op.HoldsRight inner) → Grouped (.binary op left right)

def toExpr (expr : α → Expr) : OperatorTree α → Expr
  | operand a => expr a
  | binary op left right => .binary op (left.toExpr expr) (right.toExpr expr)

/-- A list that is split at two elements is split at the same place, or each of the two stands on a
side of the other. -/
theorem split_cases {β : Type} {x y : β} {as bs as' bs' : List β}
    (same : as ++ x :: bs = as' ++ y :: bs') :
    (as = as' ∧ x = y ∧ bs = bs') ∨ (x ∈ as' ∧ y ∈ bs) ∨ (y ∈ as ∧ x ∈ bs') := by
  rcases List.append_eq_append_iff.mp same with ⟨m, before, behind⟩ | ⟨m, before, behind⟩
  · cases m with
    | nil => exact .inl ⟨by rw [before, List.append_nil], List.cons.inj behind⟩
    | cons z m =>
        obtain ⟨rfl, rfl⟩ := List.cons.inj behind
        exact .inr (.inl ⟨by simp [before], by simp⟩)
  · cases m with
    | nil => exact .inl ⟨by rw [before, List.append_nil], (List.cons.inj behind).imp .symm .symm⟩
    | cons z m =>
        obtain ⟨rfl, rfl⟩ := List.cons.inj behind
        exact .inr (.inr ⟨by simp [before], by simp⟩)

namespace Grouped

variable {t left right : OperatorTree α} {op : BinaryOp}

/-- The outermost operator is one of the loosest. -/
theorem level_le (grouped : t.Grouped) :
    ∀ op ∈ t.outermost?, ∀ x ∈ t.chain.rest, x.1.level ≤ op.level := by
  induction grouped with
  | operand a => exact fun _ isOutermost => nomatch isOutermost
  | @binary op left right _ _ holdsLeft holdsRight ofLeft ofRight =>
      intro _ isOutermost x isElement
      obtain rfl := Option.some.inj isOutermost
      rcases List.mem_append.mp isElement with inLeft | isElement
      · cases left with
        | operand a => cases inLeft
        | binary inner _ _ =>
            exact Nat.le_trans (ofLeft inner rfl x inLeft) (holdsLeft inner rfl).level_le
      · rcases List.mem_cons.mp isElement with rfl | inRight
        · exact Nat.le_refl _
        · cases right with
          | operand a => cases inRight
          | binary inner _ _ =>
              exact Nat.le_trans (ofRight inner rfl x inRight) (holdsRight inner rfl).level_le

theorem holdsLeft (grouped : left.Grouped) (holds : ∀ inner ∈ left.outermost?, op.HoldsLeft inner)
    {x : BinaryOp × α} (isElement : x ∈ left.chain.rest) : op.HoldsLeft x.1 := by
  cases left with
  | operand a => cases isElement
  | binary inner _ _ => exact (holds inner rfl).of_le (grouped.level_le inner rfl x isElement)

theorem holdsRight (grouped : right.Grouped)
    (holds : ∀ inner ∈ right.outermost?, op.HoldsRight inner) {x : BinaryOp × α}
    (isElement : x ∈ right.chain.rest) : op.HoldsRight x.1 := by
  cases right with
  | operand a => cases isElement
  | binary inner _ _ => exact (holds inner rfl).of_le (grouped.level_le inner rfl x isElement)

/-- There is only one way to put a chain together. -/
theorem unique {s t : OperatorTree α} (first : s.Grouped) (second : t.Grouped)
    (same : s.chain = t.chain) : s = t := by
  induction first generalizing t with
  | operand a =>
      cases second with
      | operand b => exact congrArg OperatorTree.operand (Chain.mk.inj same).1
      | binary => exact absurd (Chain.mk.inj same).2.symm (by simp)
  | @binary op left right groupedLeft groupedRight holdsLeft holdsRight ofLeft ofRight =>
      cases second with
      | operand b => exact absurd (Chain.mk.inj same).2 (by simp)
      | @binary op' left' right' groupedLeft' groupedRight' holdsLeft' holdsRight' =>
          obtain ⟨sameFirst, sameRest⟩ := Chain.mk.inj same
          -- Where the two trees are split at different operators, each of the two stands in an
          -- operand of the other.
          rcases split_cases sameRest with ⟨sameLeft, sameHead, sameTail⟩ | ⟨inLeft', inRight⟩ |
            ⟨inLeft, inRight'⟩
          · obtain ⟨rfl, sameOperand⟩ := Prod.mk.inj sameHead
            rw [ofLeft groupedLeft' (Chain.ext sameFirst sameLeft),
              ofRight groupedRight' (Chain.ext sameOperand sameTail)]
          · exact absurd (groupedRight.holdsRight holdsRight inRight)
              (groupedLeft'.holdsLeft holdsLeft' inLeft').not_holdsRight
          · exact absurd (groupedRight'.holdsRight holdsRight' inRight')
              (groupedLeft.holdsLeft holdsLeft inLeft).not_holdsRight

end Grouped

end OperatorTree

end ManagedDebugger
