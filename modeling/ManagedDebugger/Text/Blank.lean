/-!
Blank characters and trimmed text. The blanks are the twenty-five characters with the Unicode
property White_Space.
-/

namespace ManagedDebugger.Text

def isBlank (c : Char) : Bool :=
  let n := c.toNat
  (9 ≤ n && n ≤ 13) || n == 0x20 || n == 0x85 || n == 0xA0 || n == 0x1680 ||
    (0x2000 ≤ n && n ≤ 0x200A) || n == 0x2028 || n == 0x2029 || n == 0x202F || n == 0x205F ||
    n == 0x3000

def skipBlanks (s : List Char) : List Char := s.dropWhile isBlank

def trimmed (s : List Char) : List Char :=
  (skipBlanks (skipBlanks s).reverse).reverse

def trim (s : String) : String := String.ofList (trimmed s.toList)

def allBlank (s : String) : Bool := s.toList.all isBlank

theorem isBlank_of_isWhitespace {c : Char} (h : c.isWhitespace = true) : isBlank c = true := by
  simp only [Char.isWhitespace, Bool.or_eq_true, decide_eq_true_eq] at h
  rcases h with ((h | h) | h) | h <;> subst h <;> decide

end ManagedDebugger.Text
