import ManagedDebugger.Value.Primitive

/-!
Primitive values as text with the type in front, such as `i32:5`. Floating-point values are written by
their bits, but all values that are no number alike.
-/

namespace ManagedDebugger.Primitive

def tagged (p : Primitive) : String :=
  match p with
  | bool v => if v then "bool:true" else "bool:false"
  | char v => "char:" ++ toString v.toNat
  | i8 v => "i8:" ++ toString v.toInt
  | u8 v => "u8:" ++ toString v.toNat
  | i16 v => "i16:" ++ toString v.toInt
  | u16 v => "u16:" ++ toString v.toNat
  | i32 v => "i32:" ++ toString v.toInt
  | u32 v => "u32:" ++ toString v.toNat
  | i64 v => "i64:" ++ toString v.toInt
  | u64 v => "u64:" ++ toString v.toNat
  | f32 bits => if p.isNaN then "f32:nan" else "f32:0x" ++ Text.hexPadded 8 bits.toNat
  | f64 bits => if p.isNaN then "f64:nan" else "f64:0x" ++ Text.hexPadded 16 bits.toNat

def digitsValue? (s : List Char) : Option Nat :=
  if s.isEmpty || !s.all Char.isDigit then none
  else some (s.foldl (fun n c => 10 * n + (c.toNat - 48)) 0)

def integer? : List Char → Option Int
  | '-' :: rest => (digitsValue? rest).map fun n => -(n : Int)
  | '+' :: rest => (digitsValue? rest).map Int.ofNat
  | s => (digitsValue? s).map Int.ofNat

/-- An integer in `[low, high]`. -/
def integerIn? (low high : Int) (s : List Char) : Option Int :=
  (integer? s).filter fun x => low ≤ x && x ≤ high

/-- The bits of a floating-point value of the given width. -/
def floatBits? (width quietNaN : Nat) (s : List Char) : Option Nat :=
  match s with
  | ['n', 'a', 'n'] => some quietNaN
  | '0' :: 'x' :: digits =>
    if digits.isEmpty || !digits.all Text.isHexDigit then none
    else (some (Text.hexNumber digits)).filter fun n => n < Nat.pow 2 width
  | _ => none

/-- The value of a type by the text that follows its tag. -/
def ofBody? (tag : String) (body : List Char) : Option Primitive :=
  let signed (bits : Nat) := integerIn? (-Nat.pow 2 (bits - 1)) (Nat.pow 2 (bits - 1) - 1) body
  let unsigned (bits : Nat) := (integerIn? 0 (Nat.pow 2 bits - 1) body).map Int.toNat
  match tag with
  | "bool" =>
    if body = "true".toList then some (bool true)
    else if body = "false".toList then some (bool false)
    else none
  | "char" => (unsigned 16).map fun n => char n.toUInt16
  | "i8" => (signed 8).map fun x => i8 (Int8.ofInt x)
  | "u8" => (unsigned 8).map fun n => u8 n.toUInt8
  | "i16" => (signed 16).map fun x => i16 (Int16.ofInt x)
  | "u16" => (unsigned 16).map fun n => u16 n.toUInt16
  | "i32" => (signed 32).map fun x => i32 (Int32.ofInt x)
  | "u32" => (unsigned 32).map fun n => u32 n.toUInt32
  | "i64" => (signed 64).map fun x => i64 (Int64.ofInt x)
  | "u64" => (unsigned 64).map fun n => u64 n.toUInt64
  | "f32" => (floatBits? 32 Number.single.quietNaN body).map fun n => f32 n.toUInt32
  | "f64" => (floatBits? 64 Number.double.quietNaN body).map fun n => f64 n.toUInt64
  | _ => none

def ofTagged? (text : String) : Option Primitive :=
  let s := text.toList
  let tag := s.takeWhile (· != ':')
  match s.drop tag.length with
  | _ :: body => ofBody? (String.ofList tag) body
  | [] => none

end ManagedDebugger.Primitive
