import ManagedDebugger.Text.Blank

/-!
Hit conditions: rules on the number of times a breakpoint was hit.
-/

namespace ManagedDebugger

inductive HitCondition where
  | equal (n : UInt32)
  | greater (n : UInt32)
  | greaterOrEqual (n : UInt32)
  | less (n : UInt32)
  | lessOrEqual (n : UInt32)
  | multiple (n : UInt32)
  deriving DecidableEq, Repr, Inhabited

namespace HitCondition

/-- Decimal digits, perhaps after a plus sign, of a number below `2 ^ 32`. -/
def count? (s : List Char) : Option UInt32 :=
  let digits := match s with
    | '+' :: rest => rest
    | other => other
  let n := digits.foldl (fun n c => 10 * n + (c.toNat - 48)) 0
  if digits.isEmpty || !digits.all Char.isDigit || UInt32.size ≤ n then none else some n.toUInt32

/-- The relation that a rule starts with, equality if it starts with none, and the rest. -/
def relation : List Char → (UInt32 → HitCondition) × List Char
  | '=' :: '=' :: rest => (equal, rest)
  | '>' :: '=' :: rest => (greaterOrEqual, rest)
  | '<' :: '=' :: rest => (lessOrEqual, rest)
  | '>' :: rest => (greater, rest)
  | '<' :: rest => (less, rest)
  | '%' :: rest => (multiple, rest)
  | '=' :: rest => (equal, rest)
  | other => (equal, other)

def parse? (text : String) : Option HitCondition :=
  let (rule, rest) := relation (Text.trimmed text.toList)
  (count? (Text.trimmed rest)).map rule

/-- Nothing is a multiple of zero. -/
def isMet (hits : UInt32) : HitCondition → Bool
  | equal n => hits == n
  | greater n => n < hits
  | greaterOrEqual n => n ≤ hits
  | less n => hits < n
  | lessOrEqual n => hits ≤ n
  | multiple n => n != 0 && hits % n == 0

end HitCondition

end ManagedDebugger
