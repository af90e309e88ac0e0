import ManagedDebugger.Error
import ManagedDebugger.Text.Utf8
import ManagedDebugger.Value.Primitive

/-!
Layouts: how values stand in a payload. Each layout writes a value as bytes and reads it back from
the front of a payload; larger layouts are put together from smaller ones. Integers have the highest
byte first.
-/

namespace ManagedDebugger.Wire

abbrev Bytes := List UInt8

/-- A reader takes what it needs from the front of a payload. -/
abbrev Reader := StateT Bytes (Except NativeError)

/-- Refuses a payload. -/
def refuse {α : Type} (detail : String) : Reader α := fun _ => .error (.protocol detail)

def remaining : Reader Nat := fun bs => .ok (bs.length, bs)

/-- The next `n` bytes, or a refusal that is told how many there are. -/
def take (n : Nat) (short : Nat → String) : Reader Bytes := fun bs =>
  if n ≤ bs.length then .ok (bs.take n, bs.drop n) else .error (.protocol (short bs.length))

/-- The `n` lowest bytes of `x`, highest first. -/
def bigEndian (n x : Nat) : Bytes := (littleEndian n x).reverse

def ofBigEndian (bs : Bytes) : Nat := ofLittleEndian bs.reverse

structure Layout (α : Type) where
  put : α → Bytes
  read : Reader α

namespace Layout

variable {α β : Type}

def fixed (n : Nat) (what : String) : Layout Nat where
  put := bigEndian n
  read := do
    let bs ← take n fun _ => "Not enough data for " ++ what
    pure (ofBigEndian bs)

/-- The same bytes under another type. -/
def iso (l : Layout α) (into : α → β) (back : β → α) : Layout β where
  put b := l.put (back b)
  read := do
    let a ← l.read
    pure (into a)

def u8 : Layout UInt8 := (fixed 1 "u8").iso Nat.toUInt8 UInt8.toNat

def u16 : Layout UInt16 := (fixed 2 "u16").iso Nat.toUInt16 UInt16.toNat

def u32 : Layout UInt32 := (fixed 4 "u32").iso Nat.toUInt32 UInt32.toNat

def i32 : Layout Int32 :=
  (fixed 4 "i32").iso (fun n => n.toUInt32.toInt32) (fun x => x.toUInt32.toNat)

def u64 : Layout UInt64 := (fixed 8 "u64").iso Nat.toUInt64 UInt64.toNat

/-- Any byte but zero is true. -/
def bool : Layout Bool := u8.iso (· != 0) (fun b => if b then 1 else 0)

/-- One value after another. -/
def pair (a : Layout α) (b : Layout β) : Layout (α × β) where
  put p := a.put p.1 ++ b.put p.2
  read := do
    let x ← a.read
    let y ← b.read
    pure (x, y)

/-- The number of bytes, then the text. -/
def string : Layout String where
  put s := let bs := Text.utf8Bytes s; u32.put bs.length.toUInt32 ++ bs
  read := do
    let n ← u32.read
    let bs ← take n.toNat fun got =>
      "Not enough data for string: expected " ++ toString n.toNat ++ ", got " ++ toString got
    match Text.decodeUtf8 bs with
    | .ok s => pure (String.ofList s)
    | .error fault => refuse ("Invalid UTF-8 in string: " ++ fault.message)

def items (l : Layout α) : Nat → Reader (List α)
  | 0 => pure []
  | n + 1 => do
    let a ← l.read
    let as ← items l n
    pure (a :: as)

/-- A number of elements. Every element takes a byte at least, so a number beyond the rest of the
payload is refused at once. -/
def count : Reader Nat := do
  let n ← i32.read
  let rest ← remaining
  if n < 0 ∨ rest < n.toInt.toNat then
    refuse ("Invalid element count: " ++ toString n.toInt)
  else pure n.toInt.toNat

/-- The number of elements, then the elements. -/
def list (l : Layout α) : Layout (List α) where
  put as := u32.put as.length.toUInt32 ++ as.flatMap l.put
  read := do
    let n ← count
    l.items n

/-- A flag, then the value if there is one. -/
def option (l : Layout α) : Layout (Option α) where
  put
    | some a => bool.put true ++ l.put a
    | none => bool.put false
  read := do
    if ← bool.read then
      let a ← l.read
      pure (some a)
    else pure none

/-- A code that stands for one of finitely many values. -/
def coded (codeOf : α → UInt8) (ofCode? : UInt8 → Option α) (invalid : UInt8 → String) :
    Layout α where
  put a := u8.put (codeOf a)
  read := do
    let code ← u8.read
    match ofCode? code with
    | some a => pure a
    | none => refuse (invalid code)

/-- The element tag, the number of raw bytes, and the bytes. A zero tag leaves the type to the
width. -/
def primitive : Layout Primitive where
  put p := u8.put p.type.tag ++ u32.put p.toBytes.length.toUInt32 ++ p.toBytes
  read := do
    let tag ← u8.read
    let n ← u32.read
    let bs ← take n.toNat fun _ => "Not enough data for primitive"
    let value := match ElementType.ofTag? tag with
      | some t => Primitive.ofBytes? t bs
      | none => if tag = 0 then Primitive.ofRawBytes? bs else none
    match value with
    | some p => pure p
    | none =>
      refuse ("Invalid primitive (tag 0x" ++ Text.hexDigits tag.toNat ++ ", "
        ++ toString n.toNat ++ " bytes)")

end Layout

end ManagedDebugger.Wire
