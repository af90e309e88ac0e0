import ManagedDebugger.Json.Value

/-!
Reading records out of JSON values. A record is an object with its fields by name, of which unknown
ones do not count, or an array with its fields in order, of which the last ones may be missing.
-/

namespace ManagedDebugger.Json

def bool? : Json → Option Bool
  | bool b => some b
  | _ => none

def str? : Json → Option String
  | str s => some s
  | _ => none

/-- An integer in `[low, high]`; a number with a fraction is none, whatever its value. -/
def intIn? (low high : Int) : Json → Option Int
  | int n => if low ≤ n ∧ n ≤ high then some n else none
  | _ => none

def natBelow? (bound : Nat) (j : Json) : Option Nat := (intIn? 0 (bound - 1) j).map Int.toNat

def u16? (j : Json) : Option UInt16 := (natBelow? UInt16.size j).map Nat.toUInt16

def u32? (j : Json) : Option UInt32 := (natBelow? UInt32.size j).map Nat.toUInt32

def u64? (j : Json) : Option Nat := natBelow? UInt64.size j

def i64? (j : Json) : Option Int := intIn? Int64.minValue.toInt Int64.maxValue.toInt j

/-- Null stands for an absent value. -/
def option? {α : Type} (read : Json → Option α) : Json → Option (Option α)
  | null => some none
  | j => (read j).map some

def list? {α : Type} (read : Json → Option α) : Json → Option (List α)
  | arr items => items.mapM read
  | _ => none

def pair? {α β : Type} (first : Json → Option α) (second : Json → Option β) :
    Json → Option (α × β)
  | arr [a, b] => do
    let x ← first a
    let y ← second b
    return (x, y)
  | _ => none

/-- How the absence of content is written. -/
inductive EmptyStyle where
  | nullOnly
  | nullOrObject
  deriving DecidableEq, Repr

def EmptyStyle.admits : EmptyStyle → Json → Bool
  | _, null => true
  | nullOrObject, obj [] => true
  | _, _ => false

/-- A value without content: its name, or an object with the name alone and no content under it. -/
def name? (style : EmptyStyle) : Json → Option String
  | str s => some s
  | obj [(name, content)] => if style.admits content then some name else none
  | _ => none

/-- The fields of a record that were not read yet. -/
inductive Fields where
  | named (record : Json)
  | inOrder (rest : List Json)

abbrev RecordReader := StateT Fields Option

/-- The next field of the record, if the record has it. -/
def fieldValue? (name : String) : RecordReader (Option Json) := fun
  | .named record => some (record.member? name, .named record)
  | .inOrder [] => some (none, .inOrder [])
  | .inOrder (j :: rest) => some (some j, .inOrder rest)

def field {α : Type} (name : String) (read : Json → Option α) : RecordReader α := do
  match ← fieldValue? name with
  | some j => StateT.lift (read j)
  | none => failure

/-- A missing field has a value; a field that cannot be read has none. -/
def fieldOr {α : Type} (name : String) (missing : α) (read : Json → Option α) :
    RecordReader α := do
  match ← fieldValue? name with
  | some j => StateT.lift (read j)
  | none => pure missing

def optionalField {α : Type} (name : String) (read : Json → Option α) :
    RecordReader (Option α) :=
  fieldOr name none (option? read)

/-- A record whose fields can only be given by name. -/
def namedRecord? {α : Type} (read : RecordReader α) (j : Json) : Option α :=
  match j with
  | obj _ => (read (.named j)).map (·.1)
  | _ => none

def record? {α : Type} (read : RecordReader α) (j : Json) : Option α :=
  match j with
  | arr items =>
    match read (.inOrder items) with
    | some (a, .inOrder []) => some a
    | _ => none
  | j => namedRecord? read j

end ManagedDebugger.Json
