/-!
Element types: the twelve primitive types of the runtime, each with its metadata tag, its size, the
runtime's name and the keyword of the language.
-/

namespace ManagedDebugger

inductive ElementType where
  | boolean | char | i1 | u1 | i2 | u2 | i4 | u4 | i8 | u8 | r4 | r8
  deriving DecidableEq, Repr, Inhabited

namespace ElementType

def all : List ElementType := [boolean, char, i1, u1, i2, u2, i4, u4, i8, u8, r4, r8]

def tag : ElementType → UInt8
  | boolean => 0x02
  | char => 0x03
  | i1 => 0x04
  | u1 => 0x05
  | i2 => 0x06
  | u2 => 0x07
  | i4 => 0x08
  | u4 => 0x09
  | i8 => 0x0a
  | u8 => 0x0b
  | r4 => 0x0c
  | r8 => 0x0d

def ofTag? (t : UInt8) : Option ElementType := all.find? (·.tag == t)

/-- Bytes of the raw representation. -/
def size : ElementType → Nat
  | boolean | i1 | u1 => 1
  | char | i2 | u2 => 2
  | i4 | u4 | r4 => 4
  | i8 | u8 | r8 => 8

def runtimeName : ElementType → String
  | boolean => "System.Boolean"
  | char => "System.Char"
  | i1 => "System.SByte"
  | u1 => "System.Byte"
  | i2 => "System.Int16"
  | u2 => "System.UInt16"
  | i4 => "System.Int32"
  | u4 => "System.UInt32"
  | i8 => "System.Int64"
  | u8 => "System.UInt64"
  | r4 => "System.Single"
  | r8 => "System.Double"

def keyword : ElementType → String
  | boolean => "bool"
  | char => "char"
  | i1 => "sbyte"
  | u1 => "byte"
  | i2 => "short"
  | u2 => "ushort"
  | i4 => "int"
  | u4 => "uint"
  | i8 => "long"
  | u8 => "ulong"
  | r4 => "float"
  | r8 => "double"

def ofRuntimeName? (name : String) : Option ElementType := all.find? (·.runtimeName == name)

def isIntegral : ElementType → Bool
  | boolean | r4 | r8 => false
  | _ => true

/-- The types that values of a type convert to without a cast, besides the type itself. -/
def wider : ElementType → List ElementType
  | boolean | r8 => []
  | char => [u2, i4, u4, i8, u8, r4, r8]
  | i1 => [i2, i4, i8, r4, r8]
  | u1 => [i2, u2, i4, u4, i8, u8, r4, r8]
  | i2 => [i4, i8, r4, r8]
  | u2 => [i4, u4, i8, u8, r4, r8]
  | i4 => [i8, r4, r8]
  | u4 => [i8, u8, r4, r8]
  | i8 | u8 => [r4, r8]
  | r4 => [r8]

def widensTo (a b : ElementType) : Bool := a == b || a.wider.contains b

theorem mem_all (t : ElementType) : t ∈ all := by cases t <;> decide

@[simp] theorem ofTag?_tag (t : ElementType) : ofTag? t.tag = some t := by cases t <;> rfl

@[simp] theorem ofRuntimeName?_runtimeName (t : ElementType) :
    ofRuntimeName? t.runtimeName = some t := by cases t <;> rfl

end ElementType

end ManagedDebugger
