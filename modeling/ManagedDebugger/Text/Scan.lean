import ManagedDebugger.Text.Blank

/-!
Backtracking readers of text. A reader takes a leading part of the text or fails; a choice takes its
first branch that succeeds, and a repetition takes as many items as it can.
-/

namespace ManagedDebugger.Text

abbrev Scan := StateT (List Char) Option

namespace Scan

variable {α β : Type}

def satisfy (p : Char → Bool) : Scan Char
  | [] => none
  | c :: rest => if p c then some (c, rest) else none

/-- What follows `lead` in `s`, if `s` starts with it. -/
def after? : List Char → List Char → Option (List Char)
  | [], s => some s
  | c :: lead, d :: s => if c = d then after? lead s else none
  | _ :: _, [] => none

def exactly (text : String) : Scan Unit := fun s => (after? text.toList s).map fun rest => ((), rest)

def blanks : Scan Unit := fun s => some ((), skipBlanks s)

/-- The reader with the blanks around it. -/
def padded (p : Scan α) : Scan α := do
  blanks
  let a ← p
  blanks
  pure a

def symbol (text : String) : Scan Unit := padded (exactly text)

/-- The items in front of `s` and what follows them; an item that takes nothing ends the list. -/
def itemsOf (p : Scan α) (s : List Char) : List α × List Char :=
  match p s with
  | none => ([], s)
  | some (a, rest) =>
    if rest.length < s.length then
      let (as, rest) := itemsOf p rest
      (a :: as, rest)
    else ([], s)
termination_by s.length

def many (p : Scan α) : Scan (List α) := fun s => some (itemsOf p s)

def many1 (p : Scan α) : Scan (List α) := do
  let a ← p
  let as ← many p
  pure (a :: as)

/-- Items with a separator between each two; a separator without an item after it is not taken. -/
def separated (p : Scan α) (separator : Scan β) : Scan (List α) :=
  (do
    let a ← p
    let as ← many (do let _ ← separator; p)
    pure (a :: as)) <|> pure []

def enclosed (opening : Scan β) (p : Scan α) (closing : Scan β) : Scan α := do
  let _ ← opening
  let a ← p
  let _ ← closing
  pure a

/-- Succeeds where `p` does and takes nothing. -/
def ahead (p : Scan α) : Scan Unit := fun s => (p s).map fun _ => ((), s)

def ofOption : Option α → Scan α
  | some a => pure a
  | none => failure

def finished : Scan Unit
  | [] => some ((), [])
  | _ :: _ => none

def run? (p : Scan α) (text : String) : Option α :=
  (StateT.run (do let a ← p; finished; pure a) text.toList).map (·.1)

end Scan

end ManagedDebugger.Text
