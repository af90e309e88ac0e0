/-!
Characters as bytes. Decoding refuses overlong forms, halves of pairs and values beyond the last code
point, and says where the first faulty sequence starts and how many bytes of it were read.
-/

namespace ManagedDebugger.Text

def encodeUtf8 (s : List Char) : List UInt8 := s.flatMap String.utf8EncodeChar

def utf8Bytes (s : String) : List UInt8 := encodeUtf8 s.toList

/-- The first faulty sequence: its index, and its length unless the text ends inside it. -/
structure Utf8Fault where
  index : Nat
  length : Option Nat
  deriving DecidableEq, Repr

def Utf8Fault.message (f : Utf8Fault) : String :=
  match f.length with
  | some n =>
    "invalid utf-8 sequence of " ++ toString n ++ " bytes from index " ++ toString f.index
  | none => "incomplete utf-8 byte sequence from index " ++ toString f.index

/-- The number of bytes in the sequence that a byte starts, and the bounds of the second one. -/
def utf8Lead? (b : UInt8) : Option (Nat × UInt8 × UInt8) :=
  if b < 0x80 then some (1, 0, 0)
  else if b < 0xC2 then none
  else if b < 0xE0 then some (2, 0x80, 0xBF)
  else if b = 0xE0 then some (3, 0xA0, 0xBF)
  else if b = 0xED then some (3, 0x80, 0x9F)
  else if b < 0xF0 then some (3, 0x80, 0xBF)
  else if b = 0xF0 then some (4, 0x90, 0xBF)
  else if b < 0xF4 then some (4, 0x80, 0xBF)
  else if b = 0xF4 then some (4, 0x80, 0x8F)
  else none

def isTail (b : UInt8) : Bool := 0x80 ≤ b && b ≤ 0xBF

def tailBits (b : UInt8) : Nat := b.toNat % 64

def decodeUtf8From (index : Nat) : List UInt8 → Except Utf8Fault (List Char)
  | [] => .ok []
  | a :: rest =>
    let bad (n : Nat) : Except Utf8Fault (List Char) := .error ⟨index, some n⟩
    let cut : Except Utf8Fault (List Char) := .error ⟨index, none⟩
    match utf8Lead? a with
    | none => bad 1
    | some (1, _, _) => (decodeUtf8From (index + 1) rest).map (Char.ofNat a.toNat :: ·)
    | some (width, low, high) =>
      match rest with
      | [] => cut
      | b :: rest =>
        if b < low || high < b then bad 1
        else if width = 2 then
          (decodeUtf8From (index + 2) rest).map
            (Char.ofNat (a.toNat % 32 * 64 + tailBits b) :: ·)
        else match rest with
          | [] => cut
          | c :: rest =>
            if !isTail c then bad 2
            else if width = 3 then
              (decodeUtf8From (index + 3) rest).map
                (Char.ofNat ((a.toNat % 16 * 64 + tailBits b) * 64 + tailBits c) :: ·)
            else match rest with
              | [] => cut
              | d :: rest =>
                if !isTail d then bad 3
                else (decodeUtf8From (index + 4) rest).map
                  (Char.ofNat (((a.toNat % 8 * 64 + tailBits b) * 64 + tailBits c) * 64
                    + tailBits d) :: ·)

def decodeUtf8 (bytes : List UInt8) : Except Utf8Fault (List Char) := decodeUtf8From 0 bytes

end ManagedDebugger.Text
