import ManagedDebugger.Json.Value
import ManagedDebugger.Text.Units

/-!
The tokens of JSON text.
-/

namespace ManagedDebugger.Json

inductive Token where
  | openArr | closeArr | openObj | closeObj | colon | comma
  | str (s : String)
  | atom (j : Json)
  deriving Repr

def isSpace (c : Char) : Bool := c == ' ' || c == '\n' || c == '\t' || c == '\r'

/-- What a short escape stands for. -/
def unescaped? : Char → Option Char
  | '"' => some '"'
  | '\\' => some '\\'
  | '/' => some '/'
  | 'b' => some '\x08'
  | 'f' => some '\x0c'
  | 'n' => some '\n'
  | 'r' => some '\r'
  | 't' => some '\t'
  | _ => none

def unit? (a b c d : Char) : Option Nat :=
  if [a, b, c, d].all Text.isHexDigit then some (Text.hexNumber [a, b, c, d]) else none

def isHigh (n : Nat) : Bool := 0xD800 ≤ n && n < 0xDC00

def isLow (n : Nat) : Bool := 0xDC00 ≤ n && n < 0xE000

def joined (high low : Nat) : Char :=
  Char.ofNat (0x10000 + (high - 0xD800) * 0x400 + (low - 0xDC00))

/-- The characters up to the closing quote, and what follows it. Control characters, unknown escapes
and halves of pairs are refused. -/
def stringBody? : List Char → List Char → Option (List Char × List Char)
  | _, [] => none
  | done, '"' :: rest => some (done.reverse, rest)
  | done, '\\' :: 'u' :: a :: b :: c :: d :: '\\' :: 'u' :: e :: f :: g :: h :: rest =>
    match unit? a b c d with
    | none => none
    | some n =>
      if isHigh n then
        match unit? e f g h with
        | some m => if isLow m then stringBody? (joined n m :: done) rest else none
        | none => none
      else if isLow n then none
      else stringBody? (Char.ofNat n :: done) ('\\' :: 'u' :: e :: f :: g :: h :: rest)
  | done, '\\' :: 'u' :: a :: b :: c :: d :: rest =>
    match unit? a b c d with
    | some n => if isHigh n || isLow n then none else stringBody? (Char.ofNat n :: done) rest
    | none => none
  | done, '\\' :: c :: rest =>
    match unescaped? c with
    | some c => stringBody? (c :: done) rest
    | none => none
  | done, c :: rest => if c.toNat < 0x20 then none else stringBody? (c :: done) rest

/-- The parts of a number: sign, whole digits, fraction digits and exponent. -/
structure NumberParts where
  negative : Bool
  whole : List Char
  fraction : Option (List Char)
  exponent : Option (Bool × List Char)

def digitsOf (s : List Char) : List Char × List Char :=
  (s.takeWhile Char.isDigit, s.dropWhile Char.isDigit)

def numberParts? (s : List Char) : Option NumberParts :=
  let (negative, s) := match s with
    | '-' :: rest => (true, rest)
    | s => (false, s)
  let (whole, s) := digitsOf s
  if whole.isEmpty || (whole.length > 1 && whole.head? == some '0') then none
  else
    let (fraction, s) := match s with
      | '.' :: rest => let (f, rest) := digitsOf rest; (some f, rest)
      | s => (none, s)
    let (exponent, s) := match s with
      | e :: rest =>
        if e == 'e' || e == 'E' then
          let (minus, rest) := match rest with
            | '-' :: rest => (true, rest)
            | '+' :: rest => (false, rest)
            | rest => (false, rest)
          let (digits, rest) := digitsOf rest
          (some (minus, digits), rest)
        else (none, s)
      | [] => (none, s)
    if !s.isEmpty || fraction == some [] || exponent.map (·.2) == some [] then none
    else some ⟨negative, whole, fraction, exponent⟩

def decimalNumber (digits : List Char) : Nat :=
  digits.foldl (fun n c => 10 * n + (c.toNat - 48)) 0

/-- As many of the digits after `n` as fit into 64 bits, and the digits that are left. -/
def leadingDigits (n : Nat) : List Char → Nat × List Char
  | [] => (n, [])
  | c :: rest =>
    let next := 10 * n + (c.toNat - 48)
    if next < UInt64.size then leadingDigits next rest else (n, c :: rest)

/-- The largest exponent of a power of ten that is a double. -/
def largestPower : Nat := 308

def powerOfTen (e : Nat) : Nat := Number.double.nearest false (Nat.pow 10 e) 1

/-- The double `x` times `10 ^ e`, each step rounded. One that is too large is refused. -/
def scaled? (x : Nat) (e : Int) : Option Nat :=
  if x = 0 then some 0
  else if largestPower < e then none
  else if 0 ≤ e then (some (Number.double.product x (powerOfTen e.toNat))).filter fun r =>
    r != Number.double.infinity
  else if -largestPower ≤ e then some (Number.double.quotient x (powerOfTen (-e).toNat))
  else scaled? (Number.double.quotient x (powerOfTen largestPower)) (e + largestPower)
termination_by (-e).toNat
decreasing_by simp only [largestPower] at *; omega

/-- The digits that fit into 64 bits, as a double, times a power of ten; digits beyond those only move
the point. -/
def NumberParts.magnitude? (p : NumberParts) : Option Nat :=
  let fraction := p.fraction.getD []
  let (n, dropped) := leadingDigits 0 p.whole
  let (n, unread) := leadingDigits n fraction
  let shift : Int := match p.exponent with
    | some (minus, digits) => if minus then -(decimalNumber digits : Int) else decimalNumber digits
    | none => 0
  scaled? (Number.double.nearest false n 1)
    (shift + dropped.length - (fraction.length - unread.length : Nat))

/-- Whole numbers of at most 64 bits are integers, all others doubles. -/
def NumberParts.value? (p : NumberParts) : Option Json :=
  let n := decimalNumber p.whole
  let asInt := p.fraction.isNone && p.exponent.isNone &&
    (if p.negative then 0 < n && n ≤ 0x8000000000000000 else n < UInt64.size)
  if asInt then some (.int (if p.negative then -(n : Int) else n))
  else p.magnitude?.map fun m => .float (Number.double.withSign p.negative m).toUInt64

def isNumberChar (c : Char) : Bool :=
  c.isDigit || c == '-' || c == '+' || c == '.' || c == 'e' || c == 'E'

/-- The first token, and what follows it. -/
def nextToken? : List Char → Option (Token × List Char)
  | [] => none
  | '[' :: rest => some (.openArr, rest)
  | ']' :: rest => some (.closeArr, rest)
  | '{' :: rest => some (.openObj, rest)
  | '}' :: rest => some (.closeObj, rest)
  | ':' :: rest => some (.colon, rest)
  | ',' :: rest => some (.comma, rest)
  | '"' :: rest => (stringBody? [] rest).map fun (s, rest) => (.str (String.ofList s), rest)
  | 'n' :: 'u' :: 'l' :: 'l' :: rest => some (.atom .null, rest)
  | 't' :: 'r' :: 'u' :: 'e' :: rest => some (.atom (.bool true), rest)
  | 'f' :: 'a' :: 'l' :: 's' :: 'e' :: rest => some (.atom (.bool false), rest)
  | s => do
    let value ← (← numberParts? (s.takeWhile isNumberChar)).value?
    some (.atom value, s.dropWhile isNumberChar)

/-- The tokens of a text, the last one first. -/
def tokensInto (done : List Token) (s : List Char) : Option (List Token) :=
  match s with
  | [] => some done
  | c :: rest =>
    if isSpace c then tokensInto done rest
    else match nextToken? (c :: rest) with
      | some (token, rest') =>
        if rest'.length < (c :: rest).length then tokensInto (token :: done) rest' else none
      | none => none
termination_by s.length
decreasing_by
  · simp
  · assumption

def tokens? (s : List Char) : Option (List Token) := (tokensInto [] s).map List.reverse

end ManagedDebugger.Json
