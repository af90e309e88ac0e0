import ManagedDebugger.Text.LowerCase

/-!
Matching source documents the way users type them: either separator, any case, and any number of
leading directories left out.
-/

namespace ManagedDebugger.Document

/-- Slashes for both separators, lower-case letters. -/
def normalized (path : String) : List Char :=
  Text.lowerCase (path.toList.map fun c => if c = '\\' then '/' else c)

/-- What follows the last slash. -/
def fileName (path : List Char) : List Char := (path.reverse.takeWhile (· != '/')).reverse

def same (document requested : String) : Bool :=
  let d := normalized document
  let r := normalized requested
  d == r || ('/' :: r).isSuffixOf d || (!r.contains '/' && fileName d == r)

end ManagedDebugger.Document
