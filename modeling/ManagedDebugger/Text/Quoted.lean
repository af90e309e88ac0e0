import ManagedDebugger.Text.Hex

/-!
Quoted text: between double quotes, with quotes, backslashes and control characters escaped.
-/

namespace ManagedDebugger.Text

/-- The control characters: below the space, and from delete to the end of that block. -/
def isControl (c : Char) : Bool := c.toNat < 0x20 || (0x7F ≤ c.toNat && c.toNat ≤ 0x9F)

def escaped : Char → List Char
  | '"' => ['\\', '"']
  | '\\' => ['\\', '\\']
  | '\n' => ['\\', 'n']
  | '\r' => ['\\', 'r']
  | '\t' => ['\\', 't']
  | '\x00' => ['\\', '0']
  | c => if isControl c then '\\' :: 'u' :: (hexPadded 4 c.toNat).toList else [c]

def quoted (s : List Char) : List Char := '"' :: (s.flatMap escaped ++ ['"'])

def quote (s : String) : String := String.ofList (quoted s.toList)

end ManagedDebugger.Text
