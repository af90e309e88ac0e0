/-!
Text measured in 16-bit units: a character beyond the first 65536 code points takes two.
-/

namespace ManagedDebugger.Text

def charUnits (c : Char) : List UInt16 :=
  let n := c.toNat
  if n < 0x10000 then [n.toUInt16]
  else [(0xD800 + (n - 0x10000) / 0x400).toUInt16, (0xDC00 + (n - 0x10000) % 0x400).toUInt16]

def units (s : String) : List UInt16 := s.toList.flatMap charUnits

/-- The character of a single unit, if the unit is not half of a pair. -/
def unitChar? (u : UInt16) : Option Char :=
  if h : u.toNat.isValidChar then some ⟨u.toUInt32, by simpa [UInt32.isValidChar] using h⟩
  else none

end ManagedDebugger.Text
