import ManagedDebugger.Number.Shortest
import ManagedDebugger.Text.Hex

/-!
JSON values and their text. A number is an integer of at most 64 bits or a double, kept as a bit
pattern. The members of an object stand in the order in which they were given.
-/

namespace ManagedDebugger

inductive Json where
  | null
  | bool (b : Bool)
  | int (n : Int)
  | float (bits : UInt64)
  | str (s : String)
  | arr (items : List Json)
  | obj (members : List (String × Json))
  deriving Repr, Inhabited, BEq

namespace Json

def nat (n : Nat) : Json := int n

def ofOption {α : Type} (f : α → Json) : Option α → Json
  | some a => f a
  | none => null

def ofList {α : Type} (f : α → Json) (items : List α) : Json := arr (items.map f)

def strings (items : List String) : Json := ofList str items

/-- The last member of a name is the one that counts. -/
def member? (j : Json) (name : String) : Option Json :=
  match j with
  | obj members => (members.reverse.find? (·.1 == name)).map (·.2)
  | _ => none

def escapedChar (c : Char) : List Char :=
  match c with
  | '"' => ['\\', '"']
  | '\\' => ['\\', '\\']
  | '\n' => ['\\', 'n']
  | '\r' => ['\\', 'r']
  | '\t' => ['\\', 't']
  | '\x08' => ['\\', 'b']
  | '\x0c' => ['\\', 'f']
  | c => if c.toNat < 0x20 then '\\' :: 'u' :: (Text.hexPadded 4 c.toNat).toList else [c]

def quotedText (s : String) : String :=
  "\"" ++ String.ofList (s.toList.flatMap escapedChar) ++ "\""

/-- Numbers that need no exponent have at least one digit on either side of the point. -/
def decimalText (d : Number.Decimal) : String :=
  let digits := toString d.digits
  let kept := String.ofList ((digits.toList.reverse.dropWhile (· == '0')).reverse)
  let point : Int := digits.length + d.exponent
  if d.digits = 0 then "0.0"
  else if 0 < point ∧ point ≤ 16 then
    if (kept.length : Int) ≤ point then
      kept ++ Number.zeros (point - kept.length).toNat ++ ".0"
    else
      String.ofList (kept.toList.take point.toNat) ++ "."
        ++ String.ofList (kept.toList.drop point.toNat)
  else if -5 < point ∧ point ≤ 0 then "0." ++ Number.zeros (-point).toNat ++ kept
  else
    let mantissa :=
      if kept.length = 1 then kept
      else String.ofList (kept.toList.take 1) ++ "." ++ String.ofList (kept.toList.drop 1)
    mantissa ++ "e" ++ toString (point - 1)

/-- A double without digits has no number and is written as null. -/
def floatText (bits : UInt64) : String :=
  match Number.double.read bits.toNat with
  | .finite negative m q =>
    (if negative then "-" else "") ++ decimalText (Number.Decimal.shortest Number.double m q)
  | _ => "null"

mutual

def text : Json → String
  | null => "null"
  | bool b => if b then "true" else "false"
  | int n => toString n
  | float bits => floatText bits
  | str s => quotedText s
  | arr items => "[" ++ itemsText items ++ "]"
  | obj members => "\x7b" ++ membersText members ++ "\x7d"

def itemsText : List Json → String
  | [] => ""
  | [j] => j.text
  | j :: rest => j.text ++ "," ++ itemsText rest

def membersText : List (String × Json) → String
  | [] => ""
  | [(name, j)] => quotedText name ++ ":" ++ j.text
  | (name, j) :: rest => quotedText name ++ ":" ++ j.text ++ "," ++ membersText rest

end

end Json

end ManagedDebugger
