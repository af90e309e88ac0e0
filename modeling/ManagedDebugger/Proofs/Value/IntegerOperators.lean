import ManagedDebugger.Proofs.Value.Words

/-!
# Operators on integers

Two integers are brought to a common type that holds them both, and an operator means there what it
means for the integers themselves: sums, differences and products are exact but for the reduction
into the type, a division rounds toward zero, comparisons follow the order of the integers, and
bits are those of the two's complement representation. The one pair of types without a common type
is that of a `ulong` and a negative value.
-/

namespace ManagedDebugger

namespace WordType

/-- The type that operands of two types are brought to. -/
def common : WordType → WordType → WordType
  | ulong, _ | _, ulong => ulong
  | long, _ | _, long => long
  | uint, uint => uint
  | uint, _ | _, uint => long
  | int, int => int

/-- One of the types is `ulong`, where a negative value has no place. -/
def Clash (s : WordType) (x : Int) (t : WordType) (y : Int) : Prop :=
  (s = .ulong ∨ t = .ulong) ∧ (x < 0 ∨ y < 0)

instance (s : WordType) (x : Int) (t : WordType) (y : Int) : Decidable (Clash s x t y) :=
  inferInstanceAs (Decidable ((s = .ulong ∨ t = .ulong) ∧ (x < 0 ∨ y < 0)))

variable {s t : WordType} {x y : Int}

theorem commonWord?_eq (s : WordType) (x : Int) (t : WordType) (y : Int) :
    commonWord? s x t y = if Clash s x t y then none else some (s.common t) := by
  cases s <;> cases t <;> simp [commonWord?, common, Clash]

/-- The common type holds what either of the two types holds. -/
theorem holds_common (left : s.Holds x) (right : t.Holds y) (apart : ¬ Clash s x t y) :
    (s.common t).Holds x ∧ (s.common t).Holds y := by
  cases s <;> cases t <;>
    simp [Holds, element, ElementType.Holds, ElementType.least, ElementType.greatest,
      common, Clash] at left right apart ⊢ <;> omega

/-- Only the value of the other type can be negative. -/
theorem clash_iff (left : s.Holds x) (right : t.Holds y) :
    Clash s x t y ↔ s = .ulong ∧ y < 0 ∨ t = .ulong ∧ x < 0 := by
  cases s <;> cases t <;>
    simp [Holds, element, ElementType.Holds, ElementType.least, Clash] at left right ⊢ <;> omega

/-- A quotient or a remainder: there is none by zero, and none where the quotient is not in the
range of the type. -/
structure Divides (t : WordType) (x y exact : Int) (r : Except EvalError Primitive) : Prop where
  byZero : y = 0 → r = .error .divisionByZero
  overflow : y ≠ 0 → ¬ t.Holds (x.tdiv y) → r = .error .overflow
  fitting : y ≠ 0 → t.Holds (x.tdiv y) → t.Yields exact r

/-- Each bit of the result is made of the bits in its place. -/
def Combines (t : WordType) (f : Bool → Bool → Bool) (x y : Int)
    (r : Except EvalError Primitive) : Prop :=
  ∃ z, t.Yields z r ∧ ∀ i < t.bits, (BitVec.ofInt t.bits z).getLsbD i =
    f ((BitVec.ofInt t.bits x).getLsbD i) ((BitVec.ofInt t.bits y).getLsbD i)

end WordType

/-- The type that two operands are brought to. -/
def ElementType.common (s t : ElementType) : WordType := s.promoted.common t.promoted

/-- Quotient and remainder of a division that rounds toward zero. -/
structure Truncates (x y q m : Int) : Prop where
  sum : x = q * y + m
  smaller : m.natAbs < y.natAbs
  nonneg : 0 ≤ x → 0 ≤ m
  nonpos : x ≤ 0 → m ≤ 0

namespace BinaryOp

/-- The operators that two integers are brought to a common type for. -/
def numeric : List BinaryOp :=
  [add, sub, mul, div, rem, bitAnd, bitOr, bitXor, lt, gt, le, ge, eq, ne]

/-- What an operator comes to for two integers of a type. -/
def Means (op : BinaryOp) (checked : Bool) (t : WordType) (x y : Int)
    (r : Except EvalError Primitive) : Prop :=
  match op with
  | add => t.Computes checked (x + y) r
  | sub => t.Computes checked (x - y) r
  | mul => t.Computes checked (x * y) r
  | div => t.Divides x y (x.tdiv y) r
  | rem => t.Divides x y (x.tmod y) r
  | bitAnd => t.Combines Bool.and x y r
  | bitOr => t.Combines Bool.or x y r
  | bitXor => t.Combines Bool.xor x y r
  | lt => r = .ok (.bool (x < y))
  | gt => r = .ok (.bool (x > y))
  | le => r = .ok (.bool (x ≤ y))
  | ge => r = .ok (.bool (x ≥ y))
  | eq => r = .ok (.bool (x = y))
  | ne => r = .ok (.bool (x ≠ y))
  | shl | shr | and | or | coalesce => False

end BinaryOp

theorem tmod_nonpos {x : Int} (y : Int) (below : x ≤ 0) : x.tmod y ≤ 0 := by
  have opposite := Int.tmod_nonneg y (Int.neg_nonneg_of_nonpos below)
  rw [Int.neg_tmod] at opposite
  exact Int.neg_nonneg.mp opposite

theorem truncates_tdiv {x y : Int} (divisor : y ≠ 0) : Truncates x y (x.tdiv y) (x.tmod y) := by
  constructor
  case sum => exact (Int.tdiv_mul_add_tmod x y).symm
  case smaller =>
    rw [Int.natAbs_tmod]
    exact Nat.mod_lt _ (Int.natAbs_pos.mpr divisor)
  case nonneg => exact Int.tmod_nonneg y
  case nonpos => exact tmod_nonpos y

namespace WordType

variable {t : WordType} {x y : Int}

/-- What is between zero and an integer of the range is in the range. -/
theorem Holds.between (holds : t.Holds x) (above : 0 ≤ x → 0 ≤ y ∧ y ≤ x)
    (below : x ≤ 0 → x ≤ y ∧ y ≤ 0) : t.Holds y := by
  cases t <;>
    simp only [Holds, element, ElementType.Holds, ElementType.least, ElementType.greatest]
      at holds ⊢ <;>
    omega

theorem Holds.tmod (holds : t.Holds x) (y : Int) : t.Holds (x.tmod y) := by
  have smaller : (x.tmod y).natAbs ≤ x.natAbs := by
    rw [Int.natAbs_tmod]
    exact Nat.mod_le _ _
  apply holds.between
  · intro above
    have nonneg := Int.tmod_nonneg y above
    omega
  · intro below
    have nonpos := tmod_nonpos y below
    omega

theorem divides_divided (exact : Int) (holds : y ≠ 0 → t.Holds (x.tdiv y) → t.Holds exact) :
    t.Divides x y exact (t.divided x y exact) := by
  constructor
  · intro zero
    simp [divided, zero]
  · intro divisor outside
    simp [divided, divisor, fits_iff, outside]
  · intro divisor fitting
    simp only [divided, divisor, fits_iff.mpr fitting, if_false, if_true]
    exact (holds divisor fitting).yields

theorem holds_ofBits (b : BitVec t.bits) : t.Holds (t.ofBits b) := by
  cases t with
  | int | long => exact ⟨BitVec.le_toInt b, Int.le_sub_one_of_lt BitVec.toInt_lt⟩
  | uint | ulong =>
      exact ⟨Int.natCast_nonneg b.toNat, Int.le_sub_one_of_lt (Int.ofNat_lt.mpr b.isLt)⟩

theorem ofInt_ofBits (b : BitVec t.bits) : BitVec.ofInt t.bits (t.ofBits b) = b := by
  unfold ofBits
  split
  · exact BitVec.ofInt_toInt
  · simp

theorem combines_ofBits {f : Bool → Bool → Bool} {b : BitVec t.bits}
    (bits : ∀ i, b.getLsbD i = f ((t.toBits x).getLsbD i) ((t.toBits y).getLsbD i)) :
    t.Combines f x y (.ok (t.primitive (t.ofBits b))) := by
  refine ⟨t.ofBits b, (holds_ofBits b).yields, fun i _ => ?_⟩
  rw [ofInt_ofBits]
  exact bits i

end WordType

namespace BinaryOp

variable {op : BinaryOp} {a b : Primitive} {t : WordType} {x y : Int}

theorem means_onWords (isNumeric : op ∈ numeric) (checked : Bool) (holds : t.Holds x) (y : Int)
    (otherwise : EvalError) :
    op.Means checked t x y (op.onWords checked t x y otherwise) := by
  cases op with
  | add | sub | mul => exact t.computes_result checked _
  | div => exact WordType.divides_divided _ fun _ holds => holds
  | rem => exact WordType.divides_divided _ fun _ _ => holds.tmod y
  | bitAnd => exact WordType.combines_ofBits fun i => BitVec.getLsbD_and
  | bitOr => exact WordType.combines_ofBits fun i => BitVec.getLsbD_or
  | bitXor => exact WordType.combines_ofBits fun i => BitVec.getLsbD_xor
  | lt | gt | le | ge | eq | ne => rfl
  | shl | shr | and | or | coalesce => simp [numeric] at isNumeric

/-- The operator is applied to the operands in their common type. -/
theorem exists_onPair (isNumeric : op ∈ numeric) (checked : Bool) (left : a.toInt? = some x) :
    ∃ onPair, op.apply checked a b = commonPair op a b >>= onPair ∧
      ∀ t x y, onPair (.words t x y) = op.onWords checked t x y (notApplicable op a b) := by
  cases a with
  | bool v => cases left
  | _ =>
      cases op with
      | shl | shr | and | or | coalesce => simp [numeric] at isNumeric
      | _ => exact ⟨_, rfl, fun _ _ _ => rfl⟩

theorem apply_of_numeric (isNumeric : op ∈ numeric) (checked : Bool) (left : a.toInt? = some x)
    (right : b.toInt? = some y) :
    op.apply checked a b =
      if a.type.promoted.Clash x b.type.promoted y then
        .error (.ambiguous op a.type.keyword b.type.keyword)
      else
        op.onWords checked (a.type.promoted.common b.type.promoted) x y (notApplicable op a b) := by
  obtain ⟨onPair, applied, onWords⟩ := exists_onPair isNumeric checked left
  rw [applied, commonPair, Operand.promote?_of_toInt? left, Operand.promote?_of_toInt? right]
  simp only [WordType.commonWord?_eq]
  by_cases clash : a.type.promoted.Clash x b.type.promoted y
  · simp only [if_pos clash]
    rfl
  · simp only [if_neg clash]
    exact onWords _ x y

/-- Two integers have no common type if one is a `ulong` and the other one negative. Otherwise their
common type holds both, and the operator means there what it means for the integers. A quotient and
a remainder are those of a division that rounds toward zero. -/
theorem apply_integers (isNumeric : op ∈ numeric) (checked : Bool) (left : a.toInt? = some x)
    (right : b.toInt? = some y) :
    (if a.type = .u8 ∧ y < 0 ∨ b.type = .u8 ∧ x < 0 then
      op.apply checked a b = .error (.ambiguous op a.type.keyword b.type.keyword)
    else
      (a.type.common b.type).Holds x ∧ (a.type.common b.type).Holds y ∧
        op.Means checked (a.type.common b.type) x y (op.apply checked a b)) ∧
    (y ≠ 0 → Truncates x y (x.tdiv y) (x.tmod y)) := by
  refine ⟨?_, truncates_tdiv⟩
  have heldLeft := Primitive.holds_promoted left
  have heldRight := Primitive.holds_promoted right
  have clash_iff := WordType.clash_iff heldLeft heldRight
  rw [ElementType.promoted_eq_ulong, ElementType.promoted_eq_ulong] at clash_iff
  rw [apply_of_numeric isNumeric checked left right]
  by_cases clash : a.type.promoted.Clash x b.type.promoted y
  · rw [if_pos clash, if_pos (clash_iff.mp clash)]
  · obtain ⟨left, right⟩ := WordType.holds_common heldLeft heldRight clash
    rw [if_neg clash, if_neg fun holds => clash (clash_iff.mpr holds)]
    exact ⟨left, right, means_onWords isNumeric checked left y _⟩

/-- The quotient of the least `long` by minus one is in no type, whether or not overflows are
checked. -/
theorem apply_integers_leastLong : div ∈ numeric ∧
    (Primitive.i64 Int64.minValue).toInt? = some (-2 ^ 63) ∧
    (Primitive.i8 (-1)).toInt? = some (-1) ∧
    div.apply false (.i64 Int64.minValue) (.i8 (-1)) = .error .overflow := by
  have isNumeric : div ∈ numeric := by decide
  refine ⟨isNumeric, rfl, rfl, ?_⟩
  have means := (apply_integers (a := .i64 Int64.minValue) (b := .i8 (-1)) isNumeric false rfl rfl).1
  exact means.2.2.overflow (by decide) (by decide)

end BinaryOp

/-! ## Shifts and signs -/

namespace WordType

variable {t : WordType} {x : Int}

/-- A division that rounds down leads nowhere out of the range. -/
theorem Holds.ediv (holds : t.Holds x) {d : Int} (positive : 0 < d) : t.Holds (x / d) := by
  apply holds.between
  · intro nonneg
    exact ⟨Int.ediv_nonneg nonneg positive.le, Int.ediv_le_self d nonneg⟩
  · intro nonpos
    constructor
    · apply Int.le_ediv_of_mul_le positive
      calc x * d ≤ x * 1 := Int.mul_le_mul_of_nonpos_left nonpos positive
        _ = x := Int.mul_one x
    · exact Int.ediv_nonpos_of_nonpos_of_neg nonpos positive

/-- Only the least integer of a signed type has no negation there. -/
theorem Holds.neg_iff (holds : t.Holds x) (isSigned : t.signed = true) :
    t.Holds (-x) ↔ x ≠ t.element.least := by
  cases t with
  | uint | ulong => cases isSigned
  | int | long =>
      simp only [Holds, element, ElementType.Holds, ElementType.least, ElementType.greatest]
        at holds ⊢
      omega

/-- What a negation comes to. A `uint` becomes a `long`, and a `ulong` is refused. -/
structure Negates (t : WordType) (checked : Bool) (x : Int) (refusal : EvalError)
    (r : Except EvalError Primitive) : Prop where
  widened : t = .uint → long.Yields (-x) r
  refused : t = .ulong → r = .error refusal
  unchecked : t.signed = true → checked = false → t.Reduces (-x) r
  exact : t.signed = true → checked = true → x ≠ t.element.least → t.Yields (-x) r
  overflow : t.signed = true → checked = true → x = t.element.least → r = .error .overflow

theorem negates_negate (holds : t.Holds x) (checked : Bool) (refusal : EvalError) :
    t.Negates checked x refusal ((Operand.word t x).negate checked refusal) := by
  have computes := t.computes_result checked (-x)
  constructor
  · rintro rfl
    apply Holds.yields
    simp only [Holds, element, ElementType.Holds, ElementType.least, ElementType.greatest]
      at holds ⊢
    omega
  · rintro rfl
    rfl
  · intro isSigned
    cases t with
    | uint | ulong => cases isSigned
    | int | long => exact computes.unchecked
  · intro isSigned isChecked other
    have fits := (holds.neg_iff isSigned).mpr other
    cases t with
    | uint | ulong => cases isSigned
    | int | long => exact computes.fitting isChecked fits
  · intro isSigned isChecked same
    have outside : ¬ t.Holds (-x) := fun fits => (holds.neg_iff isSigned).mp fits same
    cases t with
    | uint | ulong => cases isSigned
    | int | long => exact computes.overflow isChecked outside

/-- Of an integer only its bits matter. -/
theorem primitive_congr {y : Int} (same : t.toBits x = t.toBits y) :
    t.primitive x = t.primitive y := by
  have congruent : (BitVec.ofInt t.bits x).toNat = (BitVec.ofInt t.bits y).toNat :=
    congrArg BitVec.toNat same
  cases t with
  | int => exact congrArg (fun b => Primitive.i32 (.ofBitVec b)) same
  | long => exact congrArg (fun b => Primitive.i64 (.ofBitVec b)) same
  | uint =>
      simp only [BitVec.toNat_ofInt] at congruent
      exact congrArg (fun n => Primitive.u32 (.ofNat n)) congruent
  | ulong =>
      simp only [BitVec.toNat_ofInt] at congruent
      exact congrArg (fun n => Primitive.u64 (.ofNat n)) congruent

/-- The bits of an integer stand for it, reduced into the type. -/
theorem primitive_ofBits {b : BitVec t.bits} (bits : b = t.toBits x) :
    t.primitive (t.ofBits b) = t.primitive x :=
  primitive_congr ((ofInt_ofBits b).trans bits)

theorem ofBits_toBits (t : WordType) (x : Int) : t.ofBits (t.toBits x) = t.wrap x := by
  unfold ofBits wrap
  split
  · exact BitVec.toInt_ofInt x
  · have positive : (0 : Int) < Nat.pow 2 t.bits := Int.natCast_pos.mpr (Nat.two_pow_pos t.bits)
    rw [toBits, BitVec.toNat_ofInt]
    exact Int.toNat_of_nonneg (Int.emod_nonneg x positive.ne')

/-- What the mask leaves is the remainder of the count by the width. -/
theorem shiftCount_eq (t : WordType) (count : Int) :
    t.shiftCount count = (count % t.bits).toNat := by
  have masked (k : Nat) (small : 2 ^ k - 1 < 2 ^ 64) :
      (BitVec.ofInt 64 count &&& BitVec.ofNat 64 (2 ^ k - 1)).toNat =
        (count % (2 ^ 64 : Nat)).toNat % 2 ^ k := by
    rw [BitVec.toNat_and, BitVec.toNat_ofNat, Nat.mod_eq_of_lt small,
      Nat.and_two_pow_sub_one_eq_mod, BitVec.toNat_ofInt]
  cases t with
  | int | uint =>
      refine (masked 5 (by decide)).trans ?_
      simp only [bits]
      omega
  | long | ulong =>
      refine (masked 6 (by decide)).trans ?_
      simp only [bits]
      omega

theorem toBits_shiftLeft (t : WordType) (x : Int) (n : Nat) :
    t.toBits x <<< n = t.toBits (x * 2 ^ n) := by
  have power : BitVec.twoPow t.bits n = BitVec.ofInt t.bits (2 ^ n) := by
    apply BitVec.eq_of_toNat_eq
    rw [BitVec.toNat_twoPow, BitVec.toNat_ofInt]
    norm_cast
  rw [toBits, toBits, BitVec.shiftLeft_eq_mul_twoPow, BitVec.ofInt_mul, power]

/-- With the sign shifted in or not, a right shift divides what the type holds. -/
theorem Holds.ofBits_shiftRight (holds : t.Holds x) (n : Nat) :
    t.ofBits (t.shiftRight (t.toBits x) n) = x / 2 ^ n := by
  have same : t.ofBits (t.toBits x) = x := (t.ofBits_toBits x).trans holds.wrap
  have power : ((2 ^ n : Nat) : Int) = 2 ^ n := Int.natCast_pow 2 n
  unfold ofBits at same
  unfold ofBits shiftRight
  split
  · next isSigned =>
    rw [if_pos isSigned] at same
    rw [BitVec.toInt_sshiftRight, same, Int.shiftRight_eq_div_pow, power]
  · next isUnsigned =>
    rw [if_neg isUnsigned] at same
    rw [BitVec.toNat_ushiftRight, Nat.shiftRight_eq_div_pow, Int.natCast_ediv, same, power]

theorem not_toBits (t : WordType) (x : Int) : ~~~t.toBits x = t.toBits (-x - 1) := by
  rw [toBits, toBits, BitVec.not_eq_neg_add, Int.sub_eq_add_neg, BitVec.ofInt_add,
    BitVec.ofInt_neg, BitVec.ofInt_neg, BitVec.sub_eq_add_neg]
  rfl

end WordType

theorem BinaryOp.apply_of_isShift {op : BinaryOp} (isShift : op.isShift = true) (checked : Bool)
    {a b : Primitive} {x c : Int} (value : a.toInt? = some x) (count : b.toInt? = some c) :
    op.apply checked a b = .ok (a.type.promoted.primitive
      (if op = .shl then x * 2 ^ (c % a.type.promoted.bits).toNat
       else x / 2 ^ (c % a.type.promoted.bits).toNat)) := by
  have holds := Primitive.holds_promoted value
  have applied : op.apply checked a b = op.shifted a b := by
    cases a with
    | bool v => cases value
    | _ =>
        cases op with
        | shl | shr => rfl
        | _ => cases isShift
  rw [applied, shifted, Operand.promote?_of_toInt? value, Operand.promote?_of_toInt? count]
  simp only [WordType.shiftCount_eq]
  split
  · rw [WordType.primitive_ofBits (WordType.toBits_shiftLeft _ _ _)]
  · rw [holds.ofBits_shiftRight]

theorem UnaryOp.apply_minus {a : Primitive} {x : Int} (value : a.toInt? = some x)
    (checked : Bool) :
    minus.apply checked a = (Operand.word a.type.promoted x).negate checked
      (.unaryNotApplicable minus a.type.keyword) := by
  cases a with
  | bool | f32 | f64 => cases value
  | _ =>
      obtain rfl := Option.some.inj value
      rfl

theorem UnaryOp.apply_bitNot {a : Primitive} {x : Int} (value : a.toInt? = some x)
    (checked : Bool) :
    bitNot.apply checked a = .ok (a.type.promoted.primitive (-x - 1)) := by
  rw [← WordType.primitive_ofBits (WordType.not_toBits _ x)]
  cases a with
  | bool | f32 | f64 => cases value
  | _ =>
      obtain rfl := Option.some.inj value
      rfl

/-- A shift goes by the remainder of its count by the width of the promoted value, whatever the
type of the count and its sign. To the left it multiplies by the power of two, to the right it
divides and rounds down. A complement is the negation less one, and a negation is exact but for the
least integer of a signed type. -/
theorem shifts_and_signs {a b : Primitive} {x c : Int} (value : a.toInt? = some x)
    (count : b.toInt? = some c) (checked : Bool) :
    a.type.promoted.Holds x ∧
    a.type.promoted.Reduces (x * 2 ^ (c % a.type.promoted.bits).toNat)
      (BinaryOp.shl.apply checked a b) ∧
    a.type.promoted.Yields (x.fdiv (2 ^ (c % a.type.promoted.bits).toNat))
      (BinaryOp.shr.apply checked a b) ∧
    a.type.promoted.Reduces (-x - 1) (UnaryOp.bitNot.apply checked a) ∧
    a.type.promoted.Negates checked x (.unaryNotApplicable .minus a.type.keyword)
      (UnaryOp.minus.apply checked a) := by
  have holds := Primitive.holds_promoted value
  refine ⟨holds, ?_, ?_, ?_, ?_⟩
  · rw [BinaryOp.apply_of_isShift rfl checked value count, if_pos rfl]
    exact a.type.promoted.reduces_primitive _
  · rw [BinaryOp.apply_of_isShift rfl checked value count, if_neg (by decide)]
    have positive : (0 : Int) < 2 ^ (c % a.type.promoted.bits).toNat := Int.pow_pos (by decide)
    rw [Int.fdiv_eq_ediv_of_nonneg _ positive.le]
    exact (holds.ediv positive).yields
  · rw [UnaryOp.apply_bitNot value]
    exact a.type.promoted.reduces_primitive (-x - 1)
  · rw [UnaryOp.apply_minus value]
    exact WordType.negates_negate holds checked _

/-- A count above the greatest `long`, of remainder one, and the one `int` without a negation. -/
theorem shifts_and_signs_leastInt : (Primitive.i32 Int32.minValue).toInt? = some (-2 ^ 31) ∧
    (Primitive.u64 0x8000000000000021).toInt? = some 0x8000000000000021 ∧
    WordType.int.Yields (-2 ^ 30)
      (BinaryOp.shr.apply true (.i32 Int32.minValue) (.u64 0x8000000000000021)) ∧
    UnaryOp.minus.apply true (.i32 Int32.minValue) = .error .overflow := by
  have value : (Primitive.i32 Int32.minValue).toInt? = some (-2 ^ 31) := rfl
  have count : (Primitive.u64 0x8000000000000021).toInt? = some 0x8000000000000021 := rfl
  obtain ⟨-, -, right, -, negates⟩ := shifts_and_signs value count true
  exact ⟨value, count, right, negates.overflow rfl rfl rfl⟩

end ManagedDebugger
