import ManagedDebugger.Json.Value

/-!
Reading JSON without complaint: what is missing or of another type reads as empty, zero or false.
-/

namespace ManagedDebugger.Json

def get (j : Json) (key : String) : Json := (j.member? key).getD null

def asStr? : Json → Option String
  | str s => some s
  | _ => none

def asNat? : Json → Option Nat
  | int n => if 0 ≤ n then some n.toNat else none
  | _ => none

def asItems? : Json → Option (List Json)
  | arr items => some items
  | _ => none

def members : Json → List (String × Json)
  | obj ms => ms
  | _ => []

def items (j : Json) : List Json := j.asItems?.getD []

/-- What stands in a place of an array. -/
def item (j : Json) (i : Nat) : Json := j.items[i]?.getD null

def asStr (j : Json) : String := j.asStr?.getD ""

def asU32 (j : Json) : UInt32 := (j.asNat?.getD 0).toUInt32

def asU64 (j : Json) : UInt64 := (j.asNat?.getD 0).toUInt64

def strAt? (j : Json) (key : String) : Option String := (j.get key).asStr?

def natAt? (j : Json) (key : String) : Option Nat := (j.get key).asNat?

def itemsAt? (j : Json) (key : String) : Option (List Json) := (j.get key).asItems?

def strAt (j : Json) (key : String) : String := (j.get key).asStr

def natAt (j : Json) (key : String) : Nat := (j.natAt? key).getD 0

/-- Zero also for what exceeds a signed word of 64 bits. -/
def intAt (j : Json) (key : String) : Int :=
  match j.get key with
  | int n => if n ≤ Int64.maxValue.toInt then n else 0
  | _ => 0

def u32At (j : Json) (key : String) : UInt32 := (j.get key).asU32

def u64At (j : Json) (key : String) : UInt64 := (j.get key).asU64

def boolAt (j : Json) (key : String) : Bool :=
  match j.get key with
  | bool b => b
  | _ => false

def itemsAt (j : Json) (key : String) : List Json := (j.get key).items

end ManagedDebugger.Json
