import ManagedDebugger.Value.Element

/-!
Type names as the user reads them: keywords for the types that have one, points between nested
types, array brackets kept.
-/

namespace ManagedDebugger.Type

/-- The name up to its first bracket, and what follows. -/
def splitBrackets (name : String) : List Char × List Char :=
  (name.toList.takeWhile (· != '['), name.toList.dropWhile (· != '['))

def shownBase (name : String) : String :=
  match name with
  | "System.String" => "string"
  | "System.Object" => "object"
  | "System.Void" => "void"
  | "System.Decimal" => "decimal"
  | other =>
    match ElementType.ofRuntimeName? other with
    | some t => t.keyword
    | none => String.ofList (other.toList.map fun c => if c = '+' then '.' else c)

def shown (name : String) : String :=
  let (base, brackets) := splitBrackets name
  shownBase (String.ofList base) ++ String.ofList brackets

/-- An array by its element type and lengths; the brackets of inner arrays follow. -/
def shownArray (name : String) (dims : List UInt32) : String :=
  let (element, brackets) := splitBrackets name
  let inner := (brackets.dropWhile (· != ']')).drop 1
  let lengths := ", ".intercalate (dims.map fun d => toString d.toNat)
  "\x7b" ++ shown (String.ofList element) ++ "[" ++ lengths ++ "]" ++ String.ofList inner ++ "\x7d"

/-- An object by its type. -/
def shownObject (name : String) : String := "\x7b" ++ shown name ++ "\x7d"

/-- The runtime name that a keyword stands for. -/
def ofKeyword? (keyword : String) : Option String :=
  match keyword with
  | "bool" => some "System.Boolean"
  | "byte" => some "System.Byte"
  | "sbyte" => some "System.SByte"
  | "char" => some "System.Char"
  | "short" => some "System.Int16"
  | "ushort" => some "System.UInt16"
  | "int" => some "System.Int32"
  | "uint" => some "System.UInt32"
  | "long" => some "System.Int64"
  | "ulong" => some "System.UInt64"
  | "float" => some "System.Single"
  | "double" => some "System.Double"
  | "decimal" => some "System.Decimal"
  | "string" => some "System.String"
  | "object" => some "System.Object"
  | _ => none

end ManagedDebugger.Type
