import ManagedDebugger.Error
import ManagedDebugger.Value.Primitive

/-!
Operators on primitive values.

Every integer smaller than 32 bits, and every character, is first promoted to `int`. Two operands are
then brought to one common type: `double` before `float`, `ulong`, `long`, `uint` and `int`. Integer
operations are computed exactly and reduced into the common type; in a checked context a result that
does not fit is an overflow.
-/

namespace ManagedDebugger

/-- The integer types that operators compute in. -/
inductive WordType where
  | int | uint | long | ulong
  deriving DecidableEq, Repr

namespace WordType

def bits : WordType → Nat
  | int | uint => 32
  | long | ulong => 64

def signed : WordType → Bool
  | int | long => true
  | uint | ulong => false

/-- The value of the type that is equal to `x` modulo `2 ^ bits`. -/
def wrap (t : WordType) (x : Int) : Int :=
  if t.signed then x.bmod (Nat.pow 2 t.bits) else x % Nat.pow 2 t.bits

def fits (t : WordType) (x : Int) : Bool := t.wrap x == x

def primitive (t : WordType) (x : Int) : Primitive :=
  match t with
  | int => .i32 (Int32.ofInt x)
  | uint => .u32 (UInt32.ofInt x)
  | long => .i64 (Int64.ofInt x)
  | ulong => .u64 (UInt64.ofInt x)

/-- The two's complement representation. -/
def toBits (t : WordType) (x : Int) : BitVec t.bits := BitVec.ofInt t.bits x

def ofBits (t : WordType) (b : BitVec t.bits) : Int := if t.signed then b.toInt else b.toNat

/-- The count of a shift, which is cut to a `long` and then to as many bits as the width needs. -/
def shiftCount (t : WordType) (count : Int) : Nat :=
  (BitVec.ofInt 64 count &&& BitVec.ofNat 64 (t.bits - 1)).toNat

/-- The sign is shifted in, if the type has one. -/
def shiftRight (t : WordType) (b : BitVec t.bits) (n : Nat) : BitVec t.bits :=
  if t.signed then b.sshiftRight n else b >>> n

end WordType

/-- An operand after promotion. -/
inductive Operand where
  | word (type : WordType) (value : Int)
  | single (bits : UInt32)
  | double (bits : UInt64)
  deriving DecidableEq, Repr

namespace Operand

def promote? : Primitive → Option Operand
  | .bool _ => none
  | .char v | .u16 v => some (.word .int v.toNat)
  | .i8 v => some (.word .int v.toInt)
  | .u8 v => some (.word .int v.toNat)
  | .i16 v => some (.word .int v.toInt)
  | .i32 v => some (.word .int v.toInt)
  | .u32 v => some (.word .uint v.toNat)
  | .i64 v => some (.word .long v.toInt)
  | .u64 v => some (.word .ulong v.toNat)
  | .f32 bits => some (.single bits)
  | .f64 bits => some (.double bits)

def toPrimitive : Operand → Primitive
  | word type value => type.primitive value
  | single bits => .f32 bits
  | double bits => .f64 bits

def toDouble : Operand → UInt64
  | word _ value => (Number.double.ofInt value).toUInt64
  | single bits => (Number.double.convert Number.single bits.toNat).toUInt64
  | double bits => bits

/-- An integer is rounded to a `double` on its way to a `float`. -/
def toSingle : Operand → UInt32
  | single bits => bits
  | other => (Number.single.convert Number.double other.toDouble.toNat).toUInt32

end Operand

/-- Both operands in their common type. -/
inductive CommonPair where
  | words (type : WordType) (x y : Int)
  | singles (x y : UInt32)
  | doubles (x y : UInt64)
  deriving DecidableEq, Repr

/-- The common type of two integer operands. A negative value has no place in `ulong`. -/
def commonWord? (s : WordType) (x : Int) (t : WordType) (y : Int) : Option WordType :=
  match s, t with
  | .ulong, _ | _, .ulong => if x < 0 ∨ y < 0 then none else some .ulong
  | .long, _ | _, .long => some .long
  | .uint, .uint => some .uint
  | .uint, _ | _, .uint => some .long
  | .int, .int => some .int

def notApplicable (op : BinaryOp) (a b : Primitive) : EvalError :=
  .binaryNotApplicable op a.type.keyword b.type.keyword

def commonPair (op : BinaryOp) (a b : Primitive) : Except EvalError CommonPair :=
  match Operand.promote? a, Operand.promote? b with
  | some (.word s x), some (.word t y) =>
    match commonWord? s x t y with
    | some type => .ok (.words type x y)
    | none => .error (.ambiguous op a.type.keyword b.type.keyword)
  | some x, some y =>
    match x, y with
    | .double _, _ | _, .double _ => .ok (.doubles x.toDouble y.toDouble)
    | _, _ => .ok (.singles x.toSingle y.toSingle)
  | _, _ => .error (notApplicable op a b)

/-- An exact result in the type `t`. -/
def WordType.result (t : WordType) (checked : Bool) (exact : Int) : Except EvalError Primitive :=
  if checked && !t.fits exact then .error .overflow else .ok (t.primitive exact)

/-- Quotient and remainder go toward zero; both fail where the quotient does not fit. -/
def WordType.divided (t : WordType) (x y exact : Int) : Except EvalError Primitive :=
  if y = 0 then .error .divisionByZero
  else if t.fits (x.tdiv y) then .ok (t.primitive exact)
  else .error .overflow

def BinaryOp.onWords (op : BinaryOp) (checked : Bool) (t : WordType) (x y : Int)
    (otherwise : EvalError) : Except EvalError Primitive :=
  match op with
  | .add => t.result checked (x + y)
  | .sub => t.result checked (x - y)
  | .mul => t.result checked (x * y)
  | .div => t.divided x y (x.tdiv y)
  | .rem => t.divided x y (x.tmod y)
  | .bitAnd => .ok (t.primitive (t.ofBits (t.toBits x &&& t.toBits y)))
  | .bitOr => .ok (t.primitive (t.ofBits (t.toBits x ||| t.toBits y)))
  | .bitXor => .ok (t.primitive (t.ofBits (t.toBits x ^^^ t.toBits y)))
  | .lt => .ok (.bool (x < y))
  | .gt => .ok (.bool (y < x))
  | .le => .ok (.bool (x ≤ y))
  | .ge => .ok (.bool (y ≤ x))
  | .eq => .ok (.bool (x = y))
  | .ne => .ok (.bool (x ≠ y))
  | _ => .error otherwise

def BinaryOp.onSingles (op : BinaryOp) (a b : UInt32) (otherwise : EvalError) :
    Except EvalError Primitive :=
  let x := Float32.ofBits a
  let y := Float32.ofBits b
  match op with
  | .add => .ok (.f32 (x + y).toBits)
  | .sub => .ok (.f32 (x - y).toBits)
  | .mul => .ok (.f32 (x * y).toBits)
  | .div => .ok (.f32 (x / y).toBits)
  | .rem => .ok (.f32 (Number.single.remainder a.toNat b.toNat).toUInt32)
  | .lt => .ok (.bool (x < y))
  | .gt => .ok (.bool (y < x))
  | .le => .ok (.bool (x ≤ y))
  | .ge => .ok (.bool (y ≤ x))
  | .eq => .ok (.bool (x == y))
  | .ne => .ok (.bool (x != y))
  | _ => .error otherwise

def BinaryOp.onDoubles (op : BinaryOp) (a b : UInt64) (otherwise : EvalError) :
    Except EvalError Primitive :=
  let x := Float.ofBits a
  let y := Float.ofBits b
  match op with
  | .add => .ok (.f64 (x + y).toBits)
  | .sub => .ok (.f64 (x - y).toBits)
  | .mul => .ok (.f64 (x * y).toBits)
  | .div => .ok (.f64 (x / y).toBits)
  | .rem => .ok (.f64 (Number.double.remainder a.toNat b.toNat).toUInt64)
  | .lt => .ok (.bool (x < y))
  | .gt => .ok (.bool (y < x))
  | .le => .ok (.bool (x ≤ y))
  | .ge => .ok (.bool (y ≤ x))
  | .eq => .ok (.bool (x == y))
  | .ne => .ok (.bool (x != y))
  | _ => .error otherwise

def BinaryOp.onBools (op : BinaryOp) (x y : Bool) (otherwise : EvalError) :
    Except EvalError Primitive :=
  match op with
  | .eq => .ok (.bool (x == y))
  | .ne | .bitXor => .ok (.bool (x != y))
  | .and | .bitAnd => .ok (.bool (x && y))
  | .or | .bitOr => .ok (.bool (x || y))
  | _ => .error otherwise

/-- The count is masked to the width of the promoted left operand. -/
def BinaryOp.shifted (op : BinaryOp) (a b : Primitive) : Except EvalError Primitive :=
  match Operand.promote? a, Operand.promote? b with
  | some (.word t x), some (.word _ count) =>
    let v := t.toBits x
    let n := t.shiftCount count
    .ok (t.primitive (t.ofBits (if op = .shl then v <<< n else t.shiftRight v n)))
  | _, _ => .error (notApplicable op a b)

def BinaryOp.apply (op : BinaryOp) (checked : Bool) (a b : Primitive) :
    Except EvalError Primitive :=
  match op, a, b with
  | op, .bool x, .bool y => op.onBools x y (notApplicable op a b)
  | .and, _, _ | .or, _, _ | .coalesce, _, _ => .error (notApplicable op a b)
  | .shl, _, _ | .shr, _, _ => op.shifted a b
  | op, _, _ => do
    match ← commonPair op a b with
    | .words t x y => op.onWords checked t x y (notApplicable op a b)
    | .singles x y => op.onSingles x y (notApplicable op a b)
    | .doubles x y => op.onDoubles x y (notApplicable op a b)

def flipSign32 (bits : UInt32) : UInt32 := bits ^^^ 0x80000000

def flipSign64 (bits : UInt64) : UInt64 := bits ^^^ 0x8000000000000000

/-- The negation of a `uint` is a `long`, that of a `ulong` does not exist. -/
def Operand.negate (checked : Bool) (otherwise : EvalError) :
    Operand → Except EvalError Primitive
  | .word .ulong _ => .error otherwise
  | .word .uint x => .ok (WordType.long.primitive (-x))
  | .word t x => t.result checked (-x)
  | .single bits => .ok (.f32 (flipSign32 bits))
  | .double bits => .ok (.f64 (flipSign64 bits))

def Operand.complement (otherwise : EvalError) : Operand → Except EvalError Primitive
  | .word t x => .ok (t.primitive (t.ofBits (~~~t.toBits x)))
  | _ => .error otherwise

def UnaryOp.apply (op : UnaryOp) (checked : Bool) (a : Primitive) : Except EvalError Primitive :=
  let otherwise := EvalError.unaryNotApplicable op a.type.keyword
  match op, a, Operand.promote? a with
  | .not, .bool b, _ => .ok (.bool !b)
  | .plus, _, some x => .ok x.toPrimitive
  | .minus, _, some x => x.negate checked otherwise
  | .bitNot, _, some x => x.complement otherwise
  | _, _, _ => .error otherwise

/-- The value in another type, reduced where it does not fit. Booleans convert to nothing else, and
floating-point values only to each other. -/
def Primitive.convert? (p : Primitive) (wanted : ElementType) : Option Primitive :=
  if p.type = wanted then some p
  else match p, p.toInt?, wanted with
    | _, some x, .r4 => some (.f32 (Number.single.ofInt x).toUInt32)
    | _, some x, .r8 => some (.f64 (Number.double.ofInt x).toUInt64)
    | _, some _, .boolean => none
    | _, some x, t => some (.ofPattern t (x % UInt64.size).toNat)
    | .f32 bits, none, .r8 =>
      some (.f64 (Number.double.convert Number.single bits.toNat).toUInt64)
    | .f64 bits, none, .r4 =>
      some (.f32 (Number.single.convert Number.double bits.toNat).toUInt32)
    | _, _, _ => none

/-- The value as an index or a count, if it is an integer below `2 ^ 63`. -/
def Primitive.index? (p : Primitive) : Option Int := p.toInt?.filter (· ≤ Int64.maxValue.toInt)

end ManagedDebugger
