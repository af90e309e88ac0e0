import ManagedDebugger.Number.Shortest
import ManagedDebugger.Text.Hex
import ManagedDebugger.Text.Units
import ManagedDebugger.Value.Element

/-!
Primitive values. Floating-point values are kept as bit patterns, so that equality is decidable and
the payload of a value that is no number survives.
-/

namespace ManagedDebugger

inductive Primitive where
  | bool (v : Bool)
  | char (v : UInt16)
  | i8 (v : Int8)
  | u8 (v : UInt8)
  | i16 (v : Int16)
  | u16 (v : UInt16)
  | i32 (v : Int32)
  | u32 (v : UInt32)
  | i64 (v : Int64)
  | u64 (v : UInt64)
  | f32 (bits : UInt32)
  | f64 (bits : UInt64)
  deriving DecidableEq, Repr, Inhabited

/-- The `n` lowest bytes of `x`, lowest first. -/
def littleEndian : Nat → Nat → List UInt8
  | 0, _ => []
  | n + 1, x => x.toUInt8 :: littleEndian n (x / 256)

def ofLittleEndian : List UInt8 → Nat
  | [] => 0
  | b :: rest => b.toNat + 256 * ofLittleEndian rest

namespace Primitive

def type : Primitive → ElementType
  | bool _ => .boolean
  | char _ => .char
  | i8 _ => .i1
  | u8 _ => .u1
  | i16 _ => .i2
  | u16 _ => .u2
  | i32 _ => .i4
  | u32 _ => .u4
  | i64 _ => .i8
  | u64 _ => .u8
  | f32 _ => .r4
  | f64 _ => .r8

/-- The bit pattern as a number. -/
def pattern : Primitive → Nat
  | bool v => v.toNat
  | char v | u16 v => v.toNat
  | i8 v => v.toUInt8.toNat
  | u8 v => v.toNat
  | i16 v => v.toUInt16.toNat
  | i32 v => v.toUInt32.toNat
  | u32 v | f32 v => v.toNat
  | i64 v => v.toUInt64.toNat
  | u64 v | f64 v => v.toNat

/-- The value of a type with the given bit pattern; every pattern but zero is true. -/
def ofPattern (t : ElementType) (n : Nat) : Primitive :=
  match t with
  | .boolean => bool (n != 0)
  | .char => char n.toUInt16
  | .i1 => i8 n.toUInt8.toInt8
  | .u1 => u8 n.toUInt8
  | .i2 => i16 n.toUInt16.toInt16
  | .u2 => u16 n.toUInt16
  | .i4 => i32 n.toUInt32.toInt32
  | .u4 => u32 n.toUInt32
  | .i8 => i64 n.toUInt64.toInt64
  | .u8 => u64 n.toUInt64
  | .r4 => f32 n.toUInt32
  | .r8 => f64 n.toUInt64

/-- The raw representation in target memory, lowest byte first. -/
def toBytes (p : Primitive) : List UInt8 := littleEndian p.type.size p.pattern

/-- Reads the raw representation; bytes beyond the size of the type are left alone. -/
def ofBytes? (t : ElementType) (bytes : List UInt8) : Option Primitive :=
  if bytes.length < t.size then none
  else some (ofPattern t (ofLittleEndian (bytes.take t.size)))

/-- Raw bytes of an unknown type are read as the unsigned type of their width. -/
def ofRawBytes? (bytes : List UInt8) : Option Primitive :=
  match bytes.length with
  | 1 => ofBytes? .u1 bytes
  | 2 => ofBytes? .u2 bytes
  | 4 => ofBytes? .u4 bytes
  | 8 => ofBytes? .u8 bytes
  | _ => none

/-- The mathematical value of an integer or a character. -/
def toInt? : Primitive → Option Int
  | bool _ | f32 _ | f64 _ => none
  | char v | u16 v => some v.toNat
  | i8 v => some v.toInt
  | u8 v => some v.toNat
  | i16 v => some v.toInt
  | i32 v => some v.toInt
  | u32 v => some v.toNat
  | i64 v => some v.toInt
  | u64 v => some v.toNat

def isNaN : Primitive → Bool
  | f32 bits => Number.single.isNaN bits.toNat
  | f64 bits => Number.double.isNaN bits.toNat
  | _ => false

/-- A character between single quotes: printable ASCII as itself, the rest escaped, half of a pair
as a question mark. -/
def shownChar (u : UInt16) : String :=
  match Text.unitChar? u with
  | none => "?"
  | some '\t' => "\\t"
  | some '\r' => "\\r"
  | some '\n' => "\\n"
  | some '\'' => "\\'"
  | some '"' => "\\\""
  | some '\\' => "\\\\"
  | some c =>
    if 0x20 ≤ c.toNat ∧ c.toNat ≤ 0x7E then c.toString
    else "\\u\x7b" ++ Text.hexDigits c.toNat ++ "\x7d"

/-- How the debugger writes the values without digits. -/
def shownNames : Number.SpecialNames := ⟨"NaN", "Infinity", "-Infinity"⟩

/-- How the runtime's own conversion to text writes them. -/
def runtimeNames : Number.SpecialNames := ⟨"NaN", "∞", "-∞"⟩

def integerText (p : Primitive) : String :=
  match p.toInt? with
  | some x => toString x
  | none => ""

/-- The text that the debugger shows. -/
def display : Primitive → String
  | bool v => if v then "true" else "false"
  | char v => toString v.toNat ++ " '" ++ shownChar v ++ "'"
  | f32 bits => Number.single.text shownNames bits.toNat
  | f64 bits => Number.double.text shownNames bits.toNat
  | p => p.integerText

/-- The text that the runtime converts a value to; half of a pair has none. -/
def runtimeText : Primitive → String
  | bool v => if v then "True" else "False"
  | char v => ((Text.unitChar? v).map Char.toString).getD ""
  | f32 bits => Number.single.text runtimeNames bits.toNat
  | f64 bits => Number.double.text runtimeNames bits.toNat
  | p => p.integerText

@[simp] theorem type_ofPattern (t : ElementType) (n : Nat) : (ofPattern t n).type = t := by
  cases t <;> rfl

end Primitive

end ManagedDebugger
