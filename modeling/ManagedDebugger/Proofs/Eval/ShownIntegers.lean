import ManagedDebugger.Proofs.Eval.Beginning
import ManagedDebugger.Proofs.Eval.Local
import ManagedDebugger.Proofs.Expr.Terms

/-!
# Shown integers, typed back

An integer is shown by its digits, behind a minus if it is negative. Typed back, the digits are a
literal of the smallest type that holds them, and the minus negates it. The negation of a `uint` is
a `long`, so that the value is kept although the type may change; but a `ulong` is not negated, and
the digits of the least `long` are one.
-/

namespace ManagedDebugger

open ManagedDebugger.Expr (wholeNumber)

namespace Primitive

/-- A character is no integer, although it has a number. -/
def isInteger : Primitive → Bool
  | bool _ | char _ | f32 _ | f64 _ => false
  | i8 _ | u8 _ | i16 _ | u16 _ | i32 _ | u32 _ | i64 _ | u64 _ => true

/-- The only integer whose digits, taken for themselves, are too large for a `long`. -/
def leastLong : Primitive := .i64 Int64.minValue

/-- What the text of an integer is made of. -/
theorem exists_toInt {v : Primitive} (isInteger : v.isInteger = true) :
    ∃ x : Int, v.toInt? = some x ∧ v.display = toString x ∧ -0x8000000000000000 ≤ x ∧
      x < 0x10000000000000000 ∧ (x = -0x8000000000000000 → v = leastLong) := by
  cases v with
  | bool | char | f32 | f64 => cases isInteger
  | i8 v =>
      have least := v.le_toInt
      have most := v.toInt_lt
      exact ⟨v.toInt, rfl, rfl, by omega, by omega, by omega⟩
  | i16 v =>
      have least := v.le_toInt
      have most := v.toInt_lt
      exact ⟨v.toInt, rfl, rfl, by omega, by omega, by omega⟩
  | i32 v =>
      have least := v.le_toInt
      have most := v.toInt_lt
      exact ⟨v.toInt, rfl, rfl, by omega, by omega, by omega⟩
  | i64 v =>
      have least := v.le_toInt
      have most := v.toInt_lt
      refine ⟨v.toInt, rfl, rfl, by omega, by omega, fun same => ?_⟩
      exact congrArg i64 (Int64.toInt_inj.mp same)
  | u8 v =>
      have most := v.toNat_lt
      exact ⟨v.toNat, rfl, rfl, by omega, by omega, by omega⟩
  | u16 v =>
      have most := v.toNat_lt
      exact ⟨v.toNat, rfl, rfl, by omega, by omega, by omega⟩
  | u32 v =>
      have most := v.toNat_lt
      exact ⟨v.toNat, rfl, rfl, by omega, by omega, by omega⟩
  | u64 v =>
      have most := v.toNat_lt
      exact ⟨v.toNat, rfl, rfl, by omega, by omega, by omega⟩

end Primitive

/-- The expression that the text of an integer is read as. -/
def LocalExpr.ofInt : Int → LocalExpr
  | .ofNat n => .primitive (wholeNumber n)
  | .negSucc n => .unary .minus (.primitive (wholeNumber (n + 1)))

namespace Expr

open Text.Scan

theorem term_wholeNumber {n : Nat} (small : n < UInt64.size) (depth : Nat)
    (inner : Text.Scan Expr) :
    term depth inner (Nat.toDigits 10 n) = some (.literal (.primitive (wholeNumber n)), []) := by
  have read := term_number (integerOf?_none small) Behind.nil depth inner
  rwa [IntegerSuffix.text, List.nil_append, List.append_nil] at read

/-- The text of an integer is read as its digits, and the minus in front of them. -/
theorem parse?_toString {x : Int} (small : x.natAbs < UInt64.size) :
    parse? (toString x) = some [(LocalExpr.ofInt x).toExpr] := by
  cases x with
  | ofNat n =>
      refine parse?_of_term fun depth inner => ?_
      rw [show (toString (Int.ofNat n)).toList = Nat.toDigits 10 n from Nat.toList_repr]
      exact term_wholeNumber small depth inner
  | negSucc n =>
      refine parse?_of_unaryLevel fun depth inner => ?_
      have text : (toString (Int.negSucc n)).toList = "-".toList ++ Nat.toDigits 10 (n + 1) :=
        String.toList_append.trans (congrArg ("-".toList ++ ·) Nat.toList_repr)
      rw [text]
      exact unaryLevel_cons ((skips_term depth inner).bind _) .minus
        (unaryLevel_of_primary (primary_of_term (term_wholeNumber small depth inner)))

end Expr

theorem toInt?_wholeNumber {n : Nat} (small : n < UInt64.size) :
    (wholeNumber n).isInteger = true ∧ (wholeNumber n).toInt? = some (n : Int) := by
  unfold wholeNumber
  split
  case isTrue int => exact ⟨rfl, congrArg some (Int32.toInt_ofNat_of_lt int)⟩
  case isFalse =>
    split
    case isTrue uint =>
      exact ⟨rfl, congrArg (fun m : Nat => some (m : Int)) (UInt32.toNat_ofNat_of_lt' uint)⟩
    case isFalse =>
      split
      case isTrue long => exact ⟨rfl, congrArg some (Int64.toInt_ofNat_of_lt long)⟩
      case isFalse =>
        exact ⟨rfl, congrArg (fun m : Nat => some (m : Int)) (UInt64.toNat_ofNat_of_lt' small)⟩

/-- The digits of a negative integer other than the least one are those of a number that has a
negation. -/
theorem minus_wholeNumber {n : Nat} (small : n < 0x8000000000000000) : ∃ q : Primitive,
    UnaryOp.minus.apply false (wholeNumber n) = .ok q ∧ q.isInteger = true ∧
      q.toInt? = some (-n : Int) := by
  by_cases int : n < 0x80000000
  · have known : wholeNumber n = .i32 (Int32.ofNat n) := if_pos int
    have value := Int32.toInt_ofInt_of_le (n := -n) (by omega) (by omega)
    rw [known]
    refine ⟨.i32 (Int32.ofInt (-(Int32.ofNat n).toInt)), rfl, rfl, ?_⟩
    rw [Int32.toInt_ofNat_of_lt int]
    exact congrArg some value
  · have value := Int64.toInt_ofInt_of_le (n := -n) (by omega) (by omega)
    by_cases uint : n < UInt32.size
    · have known : wholeNumber n = .u32 n.toUInt32 := (if_neg int).trans (if_pos uint)
      have same : n.toUInt32.toNat = n := UInt32.toNat_ofNat_of_lt' uint
      rw [known]
      refine ⟨.i64 (Int64.ofInt (-n.toUInt32.toNat)), rfl, rfl, ?_⟩
      rw [same]
      exact congrArg some value
    · have known : wholeNumber n = .i64 (Int64.ofNat n) :=
        (if_neg int).trans ((if_neg uint).trans (if_pos small))
      rw [known]
      refine ⟨.i64 (Int64.ofInt (-(Int64.ofNat n).toInt)), rfl, rfl, ?_⟩
      rw [Int64.toInt_ofNat_of_lt small]
      exact congrArg some value

theorem eval_ofInt {x : Int} (least : -0x8000000000000000 < x) (most : x < 0x10000000000000000) :
    ∃ q : Primitive, (LocalExpr.ofInt x).eval false = .ok (some q) ∧ q.isInteger = true ∧
      q.toInt? = some x := by
  cases x with
  | ofNat n => exact ⟨wholeNumber n, rfl, toInt?_wholeNumber (Int.ofNat_lt.mp most)⟩
  | negSucc n =>
      have small : n + 1 < 0x8000000000000000 := by omega
      obtain ⟨q, applied, kind, value⟩ := minus_wholeNumber small
      refine ⟨q, ?_, kind, value⟩
      change (do let r ← UnaryOp.minus.apply false (wholeNumber (n + 1)); pure (some r) :
        Except EvalError (Option Primitive)) = .ok (some q)
      rw [applied]
      rfl

theorem evaluate_toString {x : Int} (small : x.natAbs < UInt64.size) (ctx : EvalContext) :
    evaluate ctx (toString x) = do
      let _ ← Eval.ofNative (FrameScope.load ctx)
      let v ← (LocalExpr.ofInt x).eval false
      return ⟨.ofNullable v, false⟩ := by
  obtain ⟨code, compiled⟩ := (LocalExpr.ofInt x).code_toExpr false
  rw [evaluate, Expr.compile_of_parse? (Expr.parse?_toString small), compiled]
  exact (LocalExpr.ofInt x).evaluate_toExpr compiled ctx

/-- In every frame the text is evaluated to the primitive. -/
def ComesTo (text : String) (q : Primitive) : Prop :=
  ∀ ctx, evaluate ctx text = do
    let _ ← Eval.ofNative (FrameScope.load ctx)
    return ⟨.primitive q, false⟩

/-- Every integer but the least `long` can be typed back. -/
theorem comesTo_display {v : Primitive} (isInteger : v.isInteger = true)
    (other : v ≠ Primitive.leastLong) :
    ∃ q, ComesTo v.display q ∧ q.isInteger = true ∧ q.toInt? = v.toInt? := by
  obtain ⟨x, value, text, least, most, only⟩ := Primitive.exists_toInt isInteger
  have above : -0x8000000000000000 < x := by
    rcases Int.le_iff_lt_or_eq.mp least with above | same
    · exact above
    · exact absurd (only same.symm) other
  have small : x.natAbs < UInt64.size := by
    have size : UInt64.size = 0x10000000000000000 := rfl
    omega
  obtain ⟨q, evaluated, kind, same⟩ := eval_ofInt above most
  refine ⟨q, fun ctx => ?_, kind, same.trans value.symm⟩
  rw [text, evaluate_toString small, evaluated]
  rfl

def leastInt : Primitive := .i32 Int32.minValue

/-- The digits of the least `int` are a `uint`, whose negation is a `long`. -/
theorem comesTo_leastInt : leastInt.display = "-2147483648" ∧ leastInt.isInteger = true ∧
    leastInt ≠ Primitive.leastLong ∧
    ∃ q, ComesTo leastInt.display q ∧ q.isInteger = true ∧ q.toInt? = leastInt.toInt? := by
  have other : leastInt ≠ Primitive.leastLong := by decide
  exact ⟨rfl, rfl, other, comesTo_display rfl other⟩

/-- The digits of the least `long` are a `ulong`, which has no negation. -/
theorem evaluate_leastLong (ctx : EvalContext) :
    evaluate ctx Primitive.leastLong.display = (do
      let _ ← Eval.ofNative (FrameScope.load ctx)
      throw (.unaryNotApplicable .minus "ulong")) := by
  have text : Primitive.leastLong.display = toString (-9223372036854775808 : Int) := rfl
  have evaluated : (LocalExpr.ofInt (-9223372036854775808)).eval false =
      .error (.unaryNotApplicable .minus "ulong") := rfl
  rw [text, evaluate_toString (by decide), evaluated]
  rfl

/-- The least `long` is an integer that cannot be typed back. -/
theorem leastLong_not_typed_back : Primitive.leastLong.isInteger = true ∧
    Primitive.leastLong.display = "-9223372036854775808" ∧
    ¬ ∃ q, ComesTo Primitive.leastLong.display q ∧ q.isInteger = true ∧
      q.toInt? = Primitive.leastLong.toInt? := by
  refine ⟨rfl, rfl, fun holds => ?_⟩
  obtain ⟨q, comesTo, -, -⟩ := holds
  have value : callsOf (evaluate innermost Primitive.leastLong.display) =
      ([], some ⟨.primitive q, false⟩) := by
    rw [comesTo innermost]
    rfl
  have none' : callsOf (evaluate innermost Primitive.leastLong.display) = ([], none) := by
    rw [evaluate_leastLong innermost]
    rfl
  exact nomatch value.symm.trans none'

end ManagedDebugger
