import ManagedDebugger.Expr.Syntax
import ManagedDebugger.Text.Hex
import ManagedDebugger.Text.Scan

/-!
Literals: numbers, characters and strings.
-/

namespace ManagedDebugger.Expr

open Text (Scan)
open Text.Scan

def digit : Scan Char := satisfy Char.isDigit

def hexDigit : Scan Char := satisfy Text.isHexDigit

def oneOf (chars : String) : Scan Char := satisfy (chars.toList.contains ·)

def noneOf (chars : String) : Scan Char := satisfy (!chars.toList.contains ·)

def decimalValue (digits : List Char) : Nat :=
  digits.foldl (fun n c => 10 * n + (c.toNat - 48)) 0

/-- The types that a suffix leaves to an integer literal, smallest first. -/
inductive IntegerSuffix where
  | none | u | l | ul
  deriving DecidableEq, Repr

/-- The smallest type of the suffix that holds the value. -/
def integerOf? (suffix : IntegerSuffix) (n : Nat) : Option Primitive :=
  let int := if n < 0x80000000 then some (.i32 (Int32.ofNat n)) else none
  let uint := if n < UInt32.size then some (.u32 n.toUInt32) else none
  let long := if n < 0x8000000000000000 then some (.i64 (Int64.ofNat n)) else none
  let ulong := if n < UInt64.size then some (.u64 n.toUInt64) else none
  match suffix with
  | .none => int <|> uint <|> long <|> ulong
  | .u => uint <|> ulong
  | .l => long <|> ulong
  | .ul => ulong

def integerSuffix : Scan IntegerSuffix :=
  (do let _ ← oneOf "uU"; let _ ← oneOf "lL"; pure .ul) <|>
  (do let _ ← oneOf "lL"; let _ ← oneOf "uU"; pure .ul) <|>
  (do let _ ← oneOf "uU"; pure .u) <|>
  (do let _ ← oneOf "lL"; pure .l) <|>
  pure .none

def integerDigits : Scan Nat :=
  (do
    exactly "0x" <|> exactly "0X"
    let digits ← many1 hexDigit
    pure (Text.hexNumber digits)) <|>
  (do
    let digits ← many1 digit
    pure (decimalValue digits))

def integerLiteral : Scan Primitive := do
  let n ← integerDigits
  let suffix ← integerSuffix
  ofOption (integerOf? suffix n)

def fractionPart : Scan (List Char) := do
  exactly "."
  many1 digit

def exponentPart : Scan Int := do
  let _ ← oneOf "eE"
  let sign ← optional (oneOf "+-")
  let digits ← many1 digit
  let n : Int := decimalValue digits
  pure (if sign = some '-' then -n else n)

/-- The type that a suffix gives to a real literal; decimals are refused. -/
def realOf? (suffix : Option Char) (digits : Nat) (exponent : Int) : Option Primitive :=
  match suffix with
  | some 'f' | some 'F' => some (.f32 (Number.single.ofDecimal digits exponent).toUInt32)
  | some 'm' | some 'M' => none
  | _ => some (.f64 (Number.double.ofDecimal digits exponent).toUInt64)

/-- A number is real by a fraction, an exponent or a suffix. -/
def realLiteral : Scan Primitive := do
  let whole ← many1 digit
  let fraction ← optional fractionPart
  let exponent ← optional exponentPart
  let suffix ← optional (oneOf "fFdDmM")
  if fraction.isNone && exponent.isNone && suffix.isNone then failure
  else
    let places := fraction.getD []
    ofOption (realOf? suffix (decimalValue (whole ++ places)) (exponent.getD 0 - places.length))

/-- The character of a code point, if there is one. -/
def charOf? (n : Nat) : Option Char :=
  if n.isValidChar then some (Char.ofNat n) else none

def simpleEscape? : Char → Option Char
  | 'n' => some '\n'
  | 't' => some '\t'
  | 'r' => some '\r'
  | '0' => some '\x00'
  | 'a' => some '\x07'
  | 'b' => some '\x08'
  | 'f' => some '\x0c'
  | 'v' => some '\x0b'
  | '\\' => some '\\'
  | '\'' => some '\''
  | '"' => some '"'
  | _ => none

def escape : Scan Char := do
  exactly "\\"
  (do
    let c ← satisfy fun _ => true
    ofOption (simpleEscape? c)) <|>
  (do
    exactly "u"
    let a ← hexDigit
    let b ← hexDigit
    let c ← hexDigit
    let d ← hexDigit
    ofOption (charOf? (Text.hexNumber [a, b, c, d])))

/-- A character is one 16-bit unit. -/
def charLiteral : Scan Primitive := do
  let c ← enclosed (exactly "'") (escape <|> noneOf "'\\") (exactly "'")
  if c.toNat < 65536 then pure (.char c.toNat.toUInt16) else failure

/-- In a verbatim string only the quote is written twice, and nothing is escaped. -/
def verbatimString : Scan String := do
  let body := (do exactly "\"\""; pure '"') <|> noneOf "\""
  let chars ← enclosed (exactly "@\"") (many body) (exactly "\"")
  pure (String.ofList chars)

def regularString : Scan String := do
  let chars ← enclosed (exactly "\"") (many (escape <|> noneOf "\"\\")) (exactly "\"")
  pure (String.ofList chars)

def literalTerm : Scan Expr :=
  (do let p ← realLiteral; pure (.literal (.primitive p))) <|>
  (do let p ← integerLiteral; pure (.literal (.primitive p))) <|>
  (do let p ← charLiteral; pure (.literal (.primitive p))) <|>
  (do let s ← verbatimString <|> regularString; pure (.literal (.string s)))

end ManagedDebugger.Expr
