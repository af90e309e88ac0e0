import ManagedDebugger.Proofs.Eval.Compiled
import ManagedDebugger.Proofs.Eval.Orderly.Interpreter

/-!
# Local expressions

Expressions built from primitives and null by operators name nothing in the target. They have a
value of their own, by recursion on the tree and without a stack: the left operand comes first, then
the right one, then the operator under the overflow checking that the innermost construct around it
asks for. The compiled program comes to the same value or error, and all that it does to the target
is to look at the frame it runs in.
-/

namespace ManagedDebugger

/-- An expression that names nothing in the target. -/
inductive LocalExpr where
  | primitive (p : Primitive)
  | null
  | unary (op : UnaryOp) (operand : LocalExpr)
  | binary (op : BinaryOp) (left right : LocalExpr)
  /-- Overflow checking is switched on or off for the body. -/
  | checked (on : Bool) (body : LocalExpr)
  | sizeOf (type : TypeExpr)
  deriving Repr, BEq, Inhabited

/-- Null stays null under any operator. -/
def UnaryOp.applyNullable (op : UnaryOp) (checked : Bool) :
    Option Primitive → Except EvalError (Option Primitive)
  | none => return none
  | some p => do
    let r ← op.apply checked p
    return some r

/-- With null on a side, a coalescence takes the other side, null equals null alone and nothing is
less or greater; any other operator comes to null. -/
def BinaryOp.applyNullable (op : BinaryOp) (checked : Bool) :
    Option Primitive → Option Primitive → Except EvalError (Option Primitive)
  | some a, some b =>
    if op = .coalesce then return some a
    else do
      let r ← op.apply checked a b
      return some r
  | l, r =>
    match op with
    | .coalesce => return l.or r
    | .eq => return some (.bool (l.isNone && r.isNone))
    | .ne => return some (.bool !(l.isNone && r.isNone))
    | .lt | .gt | .le | .ge => return some (.bool false)
    | _ => return none

def EvalValue.ofNullable : Option Primitive → EvalValue
  | some p => .primitive p
  | none => .null

namespace LocalExpr

def toExpr : LocalExpr → Expr
  | primitive p => .literal (.primitive p)
  | null => .literal .null
  | unary op operand => .unary op operand.toExpr
  | binary op left right => .binary op left.toExpr right.toExpr
  | checked on body => .checked on body.toExpr
  | sizeOf type => .sizeOf type

/-- The value of an expression, or its first error. -/
def eval (checked : Bool) : LocalExpr → Except EvalError (Option Primitive)
  | primitive p => return some p
  | null => return none
  | unary op operand => do
    let v ← operand.eval checked
    op.applyNullable checked v
  | binary op left right => do
    let l ← left.eval checked
    let r ← right.eval checked
    op.applyNullable checked l r
  | .checked on body => body.eval on
  | sizeOf type =>
    match ElementType.ofRuntimeName? type.metadataName with
    | some t => return some (.i32 (Int32.ofNat t.size))
    | none => throw (.noSize type.metadataName)

/-- What the walk leaves on the stack for a value: literals are marked as such. -/
def entry : LocalExpr → EvalValue → StackEntry
  | primitive _ | null => .ofLiteral
  | checked _ body => body.entry
  | unary .. | binary .. | sizeOf _ => fun v => .ofValue v false

theorem code_toExpr (e : LocalExpr) (checked : Bool) :
    ∃ code, e.toExpr.code checked = .ok code := by
  induction e generalizing checked with
  | primitive p => exact ⟨_, rfl⟩
  | null => exact ⟨_, rfl⟩
  | unary op operand onOperand =>
      obtain ⟨x, compiled⟩ := onOperand checked
      refine ⟨x ++ [⟨.unary op, checked⟩], ?_⟩
      rw [toExpr, Expr.code, compiled]
      rfl
  | binary op left right onLeft onRight =>
      obtain ⟨l, compiledLeft⟩ := onLeft checked
      obtain ⟨r, compiledRight⟩ := onRight checked
      refine ⟨l ++ r ++ [⟨.binary op, checked⟩], ?_⟩
      rw [toExpr, Expr.code, compiledLeft, compiledRight]
      rfl
  | checked on body onBody => exact onBody on
  | sizeOf type => exact ⟨_, rfl⟩

end LocalExpr

namespace EvalScope

variable (s : EvalScope)

theorem localize_ofNullable (v : Option Primitive) :
    localize (.ofNullable v) = pure (.ofNullable v) := by
  cases v <;> rfl

theorem unary_ofNullable (op : UnaryOp) (checked : Bool) (v : Option Primitive) :
    s.unary op checked (.ofNullable v) = do
      let r ← op.applyNullable checked v
      return .ofNullable r := by
  rw [unary, localize_ofNullable, pure_bind]
  cases v with
  | none => rfl
  | some p =>
      simp only [UnaryOp.applyNullable, EvalValue.ofNullable]
      cases op.apply checked p <;> rfl

theorem binary_ofNullable (op : BinaryOp) (checked : Bool) (l r : Option Primitive) :
    s.binary op checked (.ofNullable l) (.ofNullable r) = do
      let v ← op.applyNullable checked l r
      return .ofNullable v := by
  simp only [binary, localize_ofNullable, pure_bind]
  cases l with
  | none => cases r <;> cases op <;> rfl
  | some a =>
      cases r with
      | none => cases op <;> rfl
      | some b =>
          -- Of two primitives only a coalescence picks one without applying the operator.
          rw [BinaryOp.applyNullable]
          by_cases coalesces : op = .coalesce
          · subst coalesces
            rfl
          · simp only [coalesces, if_false, EvalValue.ofNullable, EvalValue.isVoid,
              EvalValue.isString, EvalValue.isNull, Bool.or_self, Bool.and_false,
              Bool.false_eq_true]
            cases op.apply checked a b <;> rfl

theorem resolve_entry (e : LocalExpr) (v : EvalValue) :
    s.resolve (e.entry v) = pure (.value v, false) := by
  induction e with
  | primitive _ | null => exact StackEntry.resolve_bound (.value v) false true
  | unary | binary | sizeOf => exact StackEntry.resolve_bound (.value v) false false
  | checked _ body onBody => exact onBody

theorem resolveValue_entry (e : LocalExpr) (v : EvalValue) :
    s.resolveValue (e.entry v) = pure v := by
  rw [resolveValue, resolve_entry, pure_bind]
  rfl

/-- The walk only computes, and comes to the value of the expression or to its error. -/
theorem walk_toExpr (e : LocalExpr) (checked : Bool) :
    e.toExpr.walk s .onUse checked = do
      let v ← e.eval checked
      return e.entry (.ofNullable v) := by
  -- The setting varies, since the body of `checked` or `unchecked` is walked with one of its own.
  induction e generalizing checked with
  | primitive p => rfl
  | null => rfl
  | unary op operand onOperand =>
      simp only [LocalExpr.toExpr, Expr.walk, onOperand, unaryEntry, bind_assoc, pure_bind,
        resolveValue_entry, unary_ofNullable, LocalExpr.eval, liftM_bind, LocalExpr.entry]
  | binary op left right onLeft onRight =>
      simp only [LocalExpr.toExpr, Expr.walk, onLeft, onRight, operand, binaryEntry, bind_assoc,
        pure_bind, resolveValue_entry, binary_ofNullable, LocalExpr.eval, liftM_bind,
        LocalExpr.entry]
  | checked on body onBody => exact onBody on
  | sizeOf type =>
      simp only [LocalExpr.toExpr, Expr.walk, sizeEntry, sizeOf, LocalExpr.eval, LocalExpr.entry]
      cases ElementType.ofRuntimeName? type.metadataName <;> rfl

theorem run_toExpr (e : LocalExpr) {checked : Bool} {code : Code}
    (compiled : e.toExpr.code checked = .ok code) :
    s.run code = do
      let v ← e.eval checked
      return ⟨.ofNullable v, false⟩ := by
  simp only [run_code s compiled, Expr.evaluate, walk_toExpr, bind_assoc, pure_bind,
    resolve_entry, Resolved.toValue]

end EvalScope

/-- Looks at the target; a remote call does more. -/
def EvalOp.inspects : EvalOp → Bool
  | native call => call.inspects
  | register .. | cancel _ | wait .. => false

theorem Native.Inspects.plays {α : Type} {p : Native α} (inspects : p.Inspects)
    {es : List (Exchange evalEffect)} {r : Except EvalError α}
    (played : (Eval.ofNative p).run.Plays es r) : ∀ x ∈ es, x.op.inspects = true := by
  induction inspects generalizing es with
  | pure a =>
      obtain ⟨rfl, -⟩ := Program.plays_done_iff.mp played
      exact List.forall_mem_nil _
  | bind _ _ onFirst onSecond =>
      rw [Eval.ofNative_bind] at played
      obtain ⟨first, result, second, left, right, rfl⟩ := Program.plays_bind_iff.mp played
      refine List.forall_mem_append.mpr ⟨onFirst left, ?_⟩
      cases result with
      | ok a => exact onSecond a right
      | error error =>
          obtain ⟨rfl, -⟩ := Program.plays_done_iff.mp right
          exact List.forall_mem_nil _
  | call c inspects =>
      obtain ⟨reply, rest, rfl, ended⟩ := Program.plays_perform_iff.mp played
      obtain ⟨rfl, -⟩ := Program.plays_done_iff.mp ended
      exact List.forall_mem_singleton.mpr inspects

namespace LocalExpr

variable (e : LocalExpr) {code : Code} (compiled : e.toExpr.code false = .ok code)
  (ctx : EvalContext)
include compiled

theorem evaluate_toExpr :
    code.evaluate ctx = do
      let _ ← Eval.ofNative (FrameScope.load ctx)
      let v ← e.eval false
      return ⟨.ofNullable v, false⟩ :=
  bind_congr fun frame => EvalScope.run_toExpr ⟨ctx, frame⟩ e compiled

theorem inspects_evaluate {es : List (Exchange evalEffect)} {r : Except EvalError Evaluated}
    (played : (code.evaluate ctx).run.Plays es r) : ∀ x ∈ es, x.op.inspects = true := by
  rw [e.evaluate_toExpr compiled] at played
  obtain ⟨first, loaded, second, left, right, rfl⟩ := Program.plays_bind_iff.mp played
  have computed : second = [] := by
    cases loaded with
    | error error => exact (Program.plays_done_iff.mp right).1
    | ok frame =>
        cases value : e.eval false with
        | error error =>
            rw [value] at right
            exact (Program.plays_done_iff.mp right).1
        | ok v =>
            rw [value] at right
            exact (Program.plays_done_iff.mp right).1
  rw [computed, List.append_nil]
  exact (Eval.inspects_frameScope ctx).plays left

omit compiled

/-- In every frame the code of a local expression comes to the value or the error that the
expression has with overflow checking off at the start. It makes no remote call: the target is only
looked at, and that for the frame. -/
theorem code_agrees : ∃ code, e.toExpr.code false = .ok code ∧ ∀ ctx,
    (code.evaluate ctx = do
      let _ ← Eval.ofNative (FrameScope.load ctx)
      let v ← e.eval false
      return ⟨.ofNullable v, false⟩) ∧
    ∀ es r, (code.evaluate ctx).run.Plays es r → ∀ x ∈ es, x.op.inspects = true := by
  obtain ⟨code, compiled⟩ := e.code_toExpr false
  refine ⟨code, compiled, fun ctx => ⟨e.evaluate_toExpr compiled ctx, fun es r played => ?_⟩⟩
  exact e.inspects_evaluate compiled ctx played

/-- What is unchecked wraps around, and what stands around it is checked again. -/
example :
    let wrapped : LocalExpr :=
      .checked false (.binary .add (.primitive (.i32 2147483647)) (.primitive (.i32 1)))
    (checked true wrapped).eval false = .ok (some (.i32 (-2147483648))) ∧
      (checked true (.binary .sub wrapped (.primitive (.i32 1)))).eval false =
        .error .overflow :=
  ⟨rfl, rfl⟩

end LocalExpr

end ManagedDebugger
