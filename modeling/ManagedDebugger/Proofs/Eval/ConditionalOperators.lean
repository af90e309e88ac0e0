import ManagedDebugger.Proofs.Eval.ConditionalChain

/-!
# Conditional operators

The code of `l && r`, `l || r` and `l ?? r` has no jumps. Both operands are executed, bound and read
before the operator looks at either of them, so whatever the left operand comes to, the calls of the
right one are made and its errors are errors of the whole. Only the value is the one that a lazy
operator would have, as long as the right operand comes to a value of a fitting type.
-/

namespace ManagedDebugger

namespace EvalValue

@[simp] theorem isNull_primitive (p : Primitive) : (primitive p).isNull = false := rfl

@[simp] theorem isVoid_primitive (p : Primitive) : (primitive p).isVoid = false := rfl

end EvalValue

namespace BinaryOp

/-- The operators whose result some values of the left operand settle. -/
def isConditional : BinaryOp → Bool
  | and | or | coalesce => true
  | _ => false

/-- The left operand settles the result: it is false for `&&`, true for `||`, not null for `??`. -/
def settledBy (op : BinaryOp) (l : EvalValue) : Bool :=
  match op with
  | and => l == .primitive (.bool false)
  | or => l == .primitive (.bool true)
  | coalesce => !l.isNull
  | _ => false

/-- `&&` and `||` take Booleans only. -/
def onTruth (op : BinaryOp) (l r : EvalValue) : Except EvalError EvalValue :=
  match l, r with
  | .primitive (.bool a), .primitive (.bool b) =>
    .ok (.primitive (.bool (if op = .and then a && b else a || b)))
  | _, _ => .error (.binaryNotApplicable op l.typeName r.typeName)

/-- What a conditional operator makes of two values that are at hand. -/
def select (op : BinaryOp) (l r : EvalValue) : Except EvalError EvalValue :=
  if op = .coalesce then .ok (if l.isNull then r else l)
  else if l.isVoid || r.isVoid then .error (.binaryNotApplicable op l.typeName r.typeName)
  else if l.isNull || r.isNull then .ok .null
  else op.onTruth l r

/-- The right operand does not stand in the way of a result that the left one settles. -/
def fits (op : BinaryOp) (r : EvalValue) : Bool :=
  match op, r with
  | coalesce, _ => true
  | _, .primitive (.bool _) => true
  | _, _ => false

/-- What becomes of a settled result once the right operand is looked at as well. -/
def keep (op : BinaryOp) (l r : EvalValue) : Except EvalError EvalValue :=
  if op.fits r then .ok l
  else if r.isNull then .ok .null
  else .error (.binaryNotApplicable op l.typeName r.typeName)

variable {op : BinaryOp} {l r : EvalValue}

theorem select_coalesce (notNull : l.isNull = false) :
    coalesce.select l r = coalesce.keep l r := by
  simp [select, keep, fits, notNull]

/-- `&&` and `||` look at their right operand even if the left one is enough: null makes null of
them, and they take no other value than a Boolean. -/
theorem select_truth (logical : op = .and ∨ op = .or) {a : Bool} (settles : a = decide (op = .or)) :
    op.select (.primitive (.bool a)) r = op.keep (.primitive (.bool a)) r := by
  cases r with
  | primitive p =>
      cases p with
      | bool b => rcases logical with rfl | rfl <;> simp [select, onTruth, keep, fits, settles]
      | _ => rcases logical with rfl | rfl <;> simp [select, onTruth, keep, fits]
  | remote v =>
      rcases logical with rfl | rfl <;> simp [select, onTruth, keep, fits, EvalValue.isVoid]
  | _ =>
      rcases logical with rfl | rfl <;>
        simp [select, keep, fits, EvalValue.isVoid, EvalValue.isNull]

theorem select_settled (settled : op.settledBy l = true) : op.select l r = op.keep l r := by
  cases op with
  | coalesce => exact select_coalesce (by simpa [settledBy] using settled)
  | and =>
      have isFalse : l = .primitive (.bool false) := by simpa [settledBy] using settled
      subst isFalse
      exact select_truth (.inl rfl) rfl
  | or =>
      have isTrue : l = .primitive (.bool true) := by simpa [settledBy] using settled
      subst isTrue
      exact select_truth (.inr rfl) rfl
  | _ => simp [settledBy] at settled

end BinaryOp

namespace Eval

variable {α β : Type} {p : Eval α} {f : α → Eval β} {es : List (Exchange evalEffect)}

theorem plays_bind_error_iff {e : EvalError} :
    (p >>= f).run.Plays es (.error e) ↔ p.run.Plays es (.error e) ∨ ∃ first a second,
      p.run.Plays first (.ok a) ∧ (f a).run.Plays second (.error e) ∧ es = first ++ second := by
  constructor
  · intro played
    rcases Program.plays_bind_iff.mp played with ⟨first, r, second, left, right, rfl⟩
    cases r with
    | ok a => exact .inr ⟨first, a, second, left, right, rfl⟩
    | error e' =>
        rcases Program.plays_done_iff.mp right with ⟨rfl, same⟩
        rw [Except.error.inj same, List.append_nil]
        exact .inl left
  · intro holds
    rcases holds with failed | ⟨first, a, second, left, right, rfl⟩
    · have whole : (p >>= f).run.Plays (es ++ []) (.error e) :=
        Program.Plays.bind failed (.done _)
      simpa using whole
    · exact Program.Plays.bind left right

/-- A program in two parts takes no call only if neither part does. -/
theorem eq_pure_of_bind {b : β} (atHand : p >>= f = pure b) : ∃ a, p = pure a ∧ f a = pure b := by
  cases p with
  | perform op next => cases atHand
  | done r =>
      cases r with
      | ok a => exact ⟨a, rfl, atHand⟩
      | error e => cases atHand

end Eval

/-- The calls for an operand: for its code, for what its code has only noted down, and for reading
its value from the target. -/
structure OperandCalls where
  execution : List (Exchange evalEffect)
  binding : List (Exchange evalEffect)
  reading : List (Exchange evalEffect)

/-- The calls for two operands in turns. -/
def OperandCalls.interleave (left right : OperandCalls) : List (Exchange evalEffect) :=
  left.execution ++ (right.execution ++ (left.binding ++ (right.binding ++
    (left.reading ++ right.reading))))

namespace EvalScope

variable (s : EvalScope)

/-- The one entry that the code of an operand leaves. -/
def entry (code : Code) : Eval StackEntry := do
  match ← s.executeAll code [] with
  | [x] => return x
  | stack => throw (.leftOnStack stack.length)

/-- An operand comes to a value by some calls. -/
def Yields (code : Code) (calls : OperandCalls) (v : EvalValue) : Prop :=
  ∃ x a, (s.entry code).run.Plays calls.execution (.ok x) ∧
    (s.resolveValue x).run.Plays calls.binding (.ok a) ∧
    (localize a).run.Plays calls.reading (.ok v)

/-- Both operands are executed, bound and read in turns. Only then does the operator look at one. -/
def eagerly (op : BinaryOp) (left right : Code) : Eval Evaluated := do
  let x ← s.entry left
  let y ← s.entry right
  let a ← s.resolveValue x
  let b ← s.resolveValue y
  let a ← localize a
  let b ← localize b
  let v ← op.select a b
  return ⟨v, false⟩

/-- The value of an operand that stands alone. -/
def alone (code : Code) : Eval EvalValue := do
  let x ← s.entry code
  let a ← s.resolveValue x
  localize a

/-- The right operand is only executed if the left one does not settle the result. -/
def lazily (op : BinaryOp) (left right : Code) : Eval Evaluated := do
  let a ← s.alone left
  if op.settledBy a then return ⟨a, false⟩
  else do
    let b ← s.alone right
    let v ← op.select a b
    return ⟨v, false⟩

variable {s} {op : BinaryOp} {checked : Bool}

theorem entry_code {e : Expr} {code : Code} (compiled : e.code checked = .ok code) :
    s.entry code = e.walk s .onUse checked := by
  simp only [entry, executeAll_code s e compiled, push, bind_assoc, pure_bind, bind_pure]

theorem run_eq_entry {e : Expr} {code : Code} (compiled : e.code checked = .ok code) :
    s.run code = (do
      let x ← s.entry code
      let (r, editable) ← s.resolve x
      let v ← r.toValue
      return ⟨v, editable⟩) := by
  rw [run_code s compiled, entry_code compiled]
  rfl

/-- `&&` and `||` cannot be overloaded, and there is no identity to fall back on. -/
theorem onObjects_logical (logical : op = .and ∨ op = .or) (l r : EvalValue) :
    s.onObjects op l r = throw (.binaryNotApplicable op l.typeName r.typeName) := by
  rcases logical with rfl | rfl
  · rfl
  · rfl

theorem apply_logical (checked : Bool) (logical : op = .and ∨ op = .or) (a b : Primitive) :
    op.onTruth (.primitive a) (.primitive b) =
      (op.apply checked a b).map EvalValue.primitive := by
  rcases logical with rfl | rfl
  · cases a with
    | bool a =>
        cases b with
        | bool b => rfl
        | _ => rfl
    | _ => rfl
  · cases a with
    | bool a =>
        cases b with
        | bool b => rfl
        | _ => rfl
    | _ => rfl

theorem binary_logical (logical : op = .and ∨ op = .or) (l r : EvalValue) :
    s.binary op checked l r = (do
      let l ← localize l
      let r ← localize r
      op.select l r) := by
  have notCoalesce : op ≠ .coalesce := by rcases logical with rfl | rfl <;> nofun
  have notAdd : op ≠ .add := by rcases logical with rfl | rfl <;> nofun
  have nullWithNull (both : Bool) : withNull op both = .null := by
    rcases logical with rfl | rfl <;> rfl
  refine bind_congr fun l => bind_congr fun r => ?_
  simp only [BinaryOp.select, notCoalesce, notAdd, if_false, decide_false, Bool.false_and,
    Bool.false_eq_true, nullWithNull]
  split
  · rfl
  · split
    · rfl
    · split
      · rename_i a b _ _
        rw [apply_logical checked logical]
        cases op.apply checked a b with
        | ok p => rfl
        | error e => rfl
      · rename_i others
        rw [onObjects_logical logical, BinaryOp.onTruth]
        · rfl
        · exact fun a b left right => others _ _ left right

/-- A conditional operator reads both operands and then selects. -/
theorem binary_conditional (conditional : op.isConditional = true) (l r : EvalValue) :
    s.binary op checked l r = (do
      let l ← localize l
      let r ← localize r
      op.select l r) := by
  cases op with
  | coalesce => exact bind_congr fun l => bind_congr fun r => rfl
  | and => exact binary_logical (.inl rfl) l r
  | or => exact binary_logical (.inr rfl) l r
  | _ => simp [BinaryOp.isConditional] at conditional

theorem run_eq_eagerly (conditional : op.isConditional = true) {l r : Expr}
    {left right code : Code} (compiledLeft : l.code checked = .ok left)
    (compiledRight : r.code checked = .ok right)
    (compiled : (Expr.binary op l r).code checked = .ok code) :
    s.run code = s.eagerly op left right := by
  rw [run_code s compiled, Expr.evaluate, Expr.walk, eagerly, entry_code compiledLeft,
    entry_code compiledRight]
  simp only [operand, binaryEntry, binary_conditional conditional, bind_assoc, pure_bind,
    StackEntry.resolve_bound, StackEntry.ofValue, Resolved.toValue]

/-- What an operand comes to is what its code evaluates to by itself, by the same calls. -/
theorem yields_iff {e : Expr} {code : Code} (compiled : e.code checked = .ok code)
    {es rs : List (Exchange evalEffect)} {v : EvalValue} :
    (∃ calls, s.Yields code calls v ∧ es = calls.execution ++ calls.binding ∧
        rs = calls.reading) ↔
      ∃ u, (s.run code).run.Plays es (.ok u) ∧ (localize u.value).run.Plays rs (.ok v) := by
  rw [run_eq_entry compiled]
  constructor
  · intro holds
    rcases holds with ⟨calls, ⟨x, a, executed, bound, read⟩, rfl, rfl⟩
    rcases Eval.plays_bind_ok_iff.mp bound with
      ⟨first, ⟨r, editable⟩, second, resolved, valued, same⟩
    refine ⟨⟨a, editable⟩, ?_, read⟩
    refine Eval.plays_bind_ok_iff.mpr ⟨_, x, _, executed, ?_, rfl⟩
    refine Eval.plays_bind_ok_iff.mpr ⟨first, (r, editable), second, resolved, ?_, same⟩
    exact Eval.plays_bind_ok_iff.mpr ⟨second, a, [], valued, .done _, by simp⟩
  · intro holds
    rcases holds with ⟨u, played, read⟩
    rcases Eval.plays_bind_ok_iff.mp played with ⟨execution, x, binding, executed, after, rfl⟩
    rcases Eval.plays_bind_ok_iff.mp after with ⟨first, ⟨r, editable⟩, second, resolved, made, rfl⟩
    rcases Eval.plays_bind_ok_iff.mp made with ⟨third, a, fourth, valued, ended, rfl⟩
    rcases Program.plays_done_iff.mp ended with ⟨rfl, same⟩
    rw [Except.ok.inj same] at read
    have bound : (s.resolveValue x).run.Plays (first ++ (third ++ [])) (.ok a) := by
      refine Eval.plays_bind_ok_iff.mpr ⟨first, (r, editable), third ++ [], resolved, ?_, rfl⟩
      simpa using valued
    exact ⟨⟨execution, first ++ (third ++ []), rs⟩, ⟨x, a, executed, bound, read⟩, rfl, rfl⟩

theorem plays_eagerly {left right : Code} {ls rs : OperandCalls} {a b : EvalValue}
    (leftYields : s.Yields left ls a) (rightYields : s.Yields right rs b) :
    (s.eagerly op left right).run.Plays (ls.interleave rs)
      ((op.select a b).map (Evaluated.mk · false)) := by
  rcases leftYields with ⟨x, a', executedLeft, boundLeft, readLeft⟩
  rcases rightYields with ⟨y, b', executedRight, boundRight, readRight⟩
  refine (Eval.plays_after_iff executedLeft).mpr ?_
  refine (Eval.plays_after_iff executedRight).mpr ?_
  refine (Eval.plays_after_iff boundLeft).mpr ?_
  refine (Eval.plays_after_iff boundRight).mpr ?_
  refine (Eval.plays_after_iff readLeft).mpr ?_
  rw [← List.append_nil rs.reading]
  refine (Eval.plays_after_iff readRight).mpr ?_
  cases op.select a b with
  | ok v => exact .done _
  | error e => exact .done _

theorem eagerly_plays {left right : Code} {es : List (Exchange evalEffect)} {v : Evaluated}
    (played : (s.eagerly op left right).run.Plays es (.ok v)) :
    ∃ ls a rs b, s.Yields left ls a ∧ s.Yields right rs b ∧ es = ls.interleave rs ∧
      op.select a b = .ok v.value := by
  rcases Eval.plays_bind_ok_iff.mp played with ⟨les, x, _, executedLeft, afterLeft, rfl⟩
  rcases Eval.plays_bind_ok_iff.mp afterLeft with ⟨res, y, _, executedRight, executed, rfl⟩
  rcases Eval.plays_bind_ok_iff.mp executed with ⟨lbs, a', _, boundLeft, halfBound, rfl⟩
  rcases Eval.plays_bind_ok_iff.mp halfBound with ⟨rbs, b', _, boundRight, bound, rfl⟩
  rcases Eval.plays_bind_ok_iff.mp bound with ⟨lrs, a, _, readLeft, halfRead, rfl⟩
  rcases Eval.plays_bind_ok_iff.mp halfRead with ⟨rrs, b, last, readRight, read, rfl⟩
  have selected : op.select a b = .ok v.value ∧ last = [] := by
    cases selects : op.select a b with
    | ok w =>
        rw [selects] at read
        rcases Program.plays_done_iff.mp read with ⟨rfl, same⟩
        rw [Except.ok.inj same]
        exact ⟨rfl, rfl⟩
    | error e =>
        rw [selects] at read
        rcases Program.plays_done_iff.mp read with ⟨-, failed⟩
        cases failed
  rcases selected with ⟨selected, rfl⟩
  refine ⟨⟨les, lbs, lrs⟩, a, ⟨res, rbs, rrs⟩, b, ⟨x, a', executedLeft, boundLeft, readLeft⟩,
    ⟨y, b', executedRight, boundRight, readRight⟩, ?_, selected⟩
  simp [OperandCalls.interleave]

/-- An error of the right operand is an error of the whole. -/
theorem eagerly_fails {e : Expr} {left right : Code} (compiled : e.code checked = .ok right)
    {ls : OperandCalls} {a : EvalValue} (leftYields : s.Yields left ls a)
    {es : List (Exchange evalEffect)} {error : EvalError}
    (failed : (s.run right).run.Plays es (.error error)) :
    ∃ first between second, es = first ++ second ∧ (between = [] ∨ between = ls.binding) ∧
      (s.eagerly op left right).run.Plays (ls.execution ++ (first ++ (between ++ second)))
        (.error error) := by
  rcases leftYields with ⟨x, a', executedLeft, boundLeft, -⟩
  rw [run_eq_entry compiled] at failed
  rcases Eval.plays_bind_error_iff.mp failed with failed | ⟨first, y, second, executed, after, rfl⟩
  · refine ⟨es, [], [], by simp, .inl rfl, ?_⟩
    refine (Eval.plays_after_iff executedLeft).mpr ?_
    exact Eval.plays_bind_error_iff.mpr (.inl (by simpa using failed))
  · refine ⟨first, ls.binding, second, rfl, .inr rfl, ?_⟩
    have unbound : (s.resolveValue y).run.Plays second (.error error) := by
      rcases Eval.plays_bind_error_iff.mp after with failed | ⟨third, ⟨r, editable⟩, fourth,
        resolved, rest, rfl⟩
      · exact Eval.plays_bind_error_iff.mpr (.inl failed)
      · rcases Eval.plays_bind_error_iff.mp rest with failed | ⟨_, v, _, _, ended, rfl⟩
        · exact Eval.plays_bind_error_iff.mpr
            (.inr ⟨third, (r, editable), fourth, resolved, failed, rfl⟩)
        · rcases Program.plays_done_iff.mp ended with ⟨-, succeeded⟩
          cases succeeded
    refine (Eval.plays_after_iff executedLeft).mpr ?_
    refine (Eval.plays_after_iff executed).mpr ?_
    refine (Eval.plays_after_iff boundLeft).mpr ?_
    exact Eval.plays_bind_error_iff.mpr (.inl unbound)

/-- A right operand that takes no call, fails with nothing and fits makes the operator lazy. -/
theorem eagerly_eq_lazily {left right : Code} {b : EvalValue} (atHand : s.alone right = pure b)
    (fitting : op.fits b = true) : s.eagerly op left right = s.lazily op left right := by
  rcases Eval.eq_pure_of_bind atHand with ⟨y, executed, after⟩
  rcases Eval.eq_pure_of_bind after with ⟨b', bound, read⟩
  simp only [eagerly, lazily, executed, bound, read, pure_bind, alone, bind_assoc]
  refine bind_congr fun x => bind_congr fun a' => bind_congr fun a => ?_
  by_cases settled : op.settledBy a = true
  · rw [if_pos settled, BinaryOp.select_settled settled, BinaryOp.keep, if_pos fitting]
    rfl
  · rw [if_neg settled]

/-- How the code of a conditional operator runs, next to the code of its operands. -/
structure Eager (s : EvalScope) (op : BinaryOp) (left right code : Code) : Prop where
  /-- This is all that happens, errors included. -/
  runs : s.run code = s.eagerly op left right
  /-- What an operand comes to is what its code evaluates to by itself, by the same calls. -/
  operands : ∀ operand, operand = left ∨ operand = right → ∀ es rs v,
    (∃ calls, s.Yields operand calls v ∧ es = calls.execution ++ calls.binding ∧
        rs = calls.reading) ↔
      ∃ u, (s.run operand).run.Plays es (.ok u) ∧ (localize u.value).run.Plays rs (.ok v)
  /-- A value takes all calls of both operands. -/
  value : ∀ es v, (s.run code).run.Plays es (.ok v) →
    ∃ ls a rs b, s.Yields left ls a ∧ s.Yields right rs b ∧ es = ls.interleave rs ∧
      op.select a b = .ok v.value
  /-- So it is even if the left operand settles the result. -/
  settled : ∀ ls a rs b, s.Yields left ls a → s.Yields right rs b → op.settledBy a = true →
    (s.run code).run.Plays (ls.interleave rs) ((op.keep a b).map (Evaluated.mk · false))
  /-- Whatever the left operand came to, an error of the right one is an error of the whole. -/
  surfaces : ∀ ls a es error, s.Yields left ls a → (s.run right).run.Plays es (.error error) →
    ∃ first between second, es = first ++ second ∧ (between = [] ∨ between = ls.binding) ∧
      (s.run code).run.Plays (ls.execution ++ (first ++ (between ++ second))) (.error error)
  /-- The operator is lazy if there is nothing to be seen of the right operand. -/
  atHand : ∀ b, s.alone right = pure b → op.fits b = true → s.run code = s.lazily op left right

end EvalScope

/-- The conditional operators are eager: the code of the right operand runs after the code of the
left one, whatever that comes to. -/
theorem run_conditional (s : EvalScope) {op : BinaryOp} (conditional : op.isConditional = true)
    {l r : Expr} {checked : Bool} {code : Code}
    (compiled : (Expr.binary op l r).code checked = .ok code) :
    ∃ left right, l.code checked = .ok left ∧ r.code checked = .ok right ∧
      s.Eager op left right code := by
  rcases Except.bind_eq_ok_iff.mp compiled with ⟨left, compiledLeft, rest⟩
  rcases Except.bind_eq_ok_iff.mp rest with ⟨right, compiledRight, -⟩
  have runs := s.run_eq_eagerly conditional compiledLeft compiledRight compiled
  refine ⟨left, right, compiledLeft, compiledRight, ?_⟩
  constructor
  case runs => exact runs
  case operands =>
    intro operand among es rs v
    rcases among with rfl | rfl
    · exact EvalScope.yields_iff compiledLeft
    · exact EvalScope.yields_iff compiledRight
  case value =>
    intro es v played
    rw [runs] at played
    exact EvalScope.eagerly_plays played
  case settled =>
    intro ls a rs b leftYields rightYields settled
    rw [runs, ← BinaryOp.select_settled settled]
    exact EvalScope.plays_eagerly leftYields rightYields
  case surfaces =>
    intro ls a es error leftYields failed
    rw [runs]
    exact EvalScope.eagerly_fails compiledRight leftYields failed
  case atHand =>
    intro b atHand fitting
    rw [runs, EvalScope.eagerly_eq_lazily atHand fitting]

section Settled

/-- The left operand is true, but the right one is null. -/
def trueOrNull : Expr := .binary .or (.literal (.primitive (.bool true))) nullLiteral

theorem run_trueOrNull : ∃ code, trueOrNull.code false = .ok code ∧
    (EvalScope.run ⟨innermost, .empty⟩ code).run.Plays [] (.ok ⟨.null, false⟩) := by
  have compiled : trueOrNull.code false = .ok _ := rfl
  rcases run_conditional ⟨innermost, .empty⟩ rfl compiled with ⟨left, right, isLeft, isRight, eager⟩
  have truth :
      EvalScope.Yields ⟨innermost, .empty⟩ left ⟨[], [], []⟩ (.primitive (.bool true)) := by
    cases isLeft
    exact ⟨_, _, .done _, .done _, .done _⟩
  have null : EvalScope.Yields ⟨innermost, .empty⟩ right ⟨[], [], []⟩ .null := by
    cases isRight
    exact ⟨_, _, .done _, .done _, .done _⟩
  exact ⟨_, compiled, eager.settled _ _ _ _ truth null rfl⟩

def one : Expr := .literal (.primitive (.i32 1))

/-- One is not null, so a lazy operator would not call the method. -/
def oneOrCall : Expr := .binary .coalesce one (.invocation (.identifier "F") [])

def nullIsNotNull : Expr := .binary .ne nullLiteral nullLiteral

/-- `null != null && null.F > 1`. -/
def guardedMember : Expr :=
  .binary .and nullIsNotNull (.binary .gt (.member nullLiteral "F" none false) one)

/-- What a left operand alone comes to, and what becomes of the whole. -/
theorem settled_not_lazy :
    (∃ left code, one.code false = .ok left ∧ oneOrCall.code false = .ok code ∧
      callsOf (left.evaluate innermost) = ([], some ⟨.primitive (.i32 1), false⟩) ∧
      callsOf (code.evaluate innermost) = ([⟨1, 2⟩], some ⟨.primitive (.i32 1), false⟩)) ∧
    (∃ left code, nullIsNotNull.code false = .ok left ∧ guardedMember.code false = .ok code ∧
      callsOf (left.evaluate innermost) = ([], some ⟨.primitive (.bool false), false⟩) ∧
      callsOf (code.evaluate innermost) = ([], none)) :=
  ⟨⟨_, _, rfl, rfl, by decide +kernel, by decide +kernel⟩,
    ⟨_, _, rfl, rfl, by decide +kernel, by decide +kernel⟩⟩

end Settled

end ManagedDebugger
