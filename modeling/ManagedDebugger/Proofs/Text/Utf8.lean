import ManagedDebugger.Text.Utf8

/-!
# Decoding what was encoded

A character takes one to four bytes. The first byte tells how many, and for the bytes after it the
decoder checks exactly the bounds that the encoder keeps: no overlong form, no half of a pair and
nothing beyond the last code point can come from a character.
-/

namespace ManagedDebugger.Text

/-! ## Bytes at the head of a sequence -/

theorem utf8Lead?_one {a : UInt8} (less : a.toNat < 0x80) : utf8Lead? a = some (1, 0, 0) := by
  simp [utf8Lead?, UInt8.lt_iff_toNat_lt, less]

theorem utf8Lead?_two {a : UInt8} (least : 0xC2 ≤ a.toNat) (less : a.toNat < 0xE0) :
    utf8Lead? a = some (2, 0x80, 0xBF) := by
  have notOne : ¬ a.toNat < 0x80 := by omega
  have notFaulty : ¬ a.toNat < 0xC2 := by omega
  simp [utf8Lead?, UInt8.lt_iff_toNat_lt, less, notOne, notFaulty]

/-- Three bytes: an overlong form would have a low second byte, half of a pair a high one. -/
theorem utf8Lead?_three {a : UInt8} (least : 0xE0 ≤ a.toNat) (less : a.toNat < 0xF0) :
    utf8Lead? a = some (3, if a.toNat = 0xE0 then 0xA0 else 0x80,
      if a.toNat = 0xED then 0x9F else 0xBF) := by
  have notOne : ¬ a.toNat < 0x80 := by omega
  have notFaulty : ¬ a.toNat < 0xC2 := by omega
  have notTwo : ¬ a.toNat < 0xE0 := by omega
  by_cases first : a.toNat = 0xE0
  · simp [utf8Lead?, UInt8.lt_iff_toNat_lt, ← UInt8.toNat_inj, first]
  · by_cases pairs : a.toNat = 0xED
    · simp [utf8Lead?, UInt8.lt_iff_toNat_lt, ← UInt8.toNat_inj, pairs]
    · simp [utf8Lead?, UInt8.lt_iff_toNat_lt, ← UInt8.toNat_inj, less, notOne, notFaulty, notTwo,
        first, pairs]

/-- Four bytes: an overlong form would have a low second byte, and one beyond the last code point a
high one. -/
theorem utf8Lead?_four {a : UInt8} (least : 0xF0 ≤ a.toNat) (less : a.toNat ≤ 0xF4) :
    utf8Lead? a = some (4, if a.toNat = 0xF0 then 0x90 else 0x80,
      if a.toNat = 0xF4 then 0x8F else 0xBF) := by
  have notOne : ¬ a.toNat < 0x80 := by omega
  have notFaulty : ¬ a.toNat < 0xC2 := by omega
  have notTwo : ¬ a.toNat < 0xE0 := by omega
  have notThree : ¬ a.toNat < 0xF0 := by omega
  have notOverlong : a.toNat ≠ 0xE0 := by omega
  have noHalf : a.toNat ≠ 0xED := by omega
  by_cases first : a.toNat = 0xF0
  · simp [utf8Lead?, UInt8.lt_iff_toNat_lt, ← UInt8.toNat_inj, first]
  · by_cases last : a.toNat = 0xF4
    · simp [utf8Lead?, UInt8.lt_iff_toNat_lt, ← UInt8.toNat_inj, last]
    · have between : a.toNat < 0xF4 := by omega
      simp [utf8Lead?, UInt8.lt_iff_toNat_lt, ← UInt8.toNat_inj, notOne, notFaulty, notTwo,
        notThree, notOverlong, noHalf, first, last, between]

/-! ## One sequence -/

section Sequence

variable {a b c d low high : UInt8} {rest : List UInt8}

theorem decodeUtf8From_one (i : Nat) (lead : utf8Lead? a = some (1, low, high)) :
    decodeUtf8From i (a :: rest) =
      (decodeUtf8From (i + 1) rest).map (Char.ofNat a.toNat :: ·) := by
  rw [decodeUtf8From, lead]
  rfl

theorem decodeUtf8From_two (i : Nat) (lead : utf8Lead? a = some (2, low, high))
    (second : (b < low || high < b) = false) :
    decodeUtf8From i (a :: b :: rest) =
      (decodeUtf8From (i + 2) rest).map (Char.ofNat (a.toNat % 32 * 64 + tailBits b) :: ·) := by
  rw [decodeUtf8From, lead]
  simp [second]

theorem decodeUtf8From_three (i : Nat) (lead : utf8Lead? a = some (3, low, high))
    (second : (b < low || high < b) = false) (third : isTail c = true) :
    decodeUtf8From i (a :: b :: c :: rest) =
      (decodeUtf8From (i + 3) rest).map
        (Char.ofNat ((a.toNat % 16 * 64 + tailBits b) * 64 + tailBits c) :: ·) := by
  rw [decodeUtf8From, lead]
  simp [second, third]

theorem decodeUtf8From_four (i : Nat) (lead : utf8Lead? a = some (4, low, high))
    (second : (b < low || high < b) = false) (third : isTail c = true) (fourth : isTail d = true) :
    decodeUtf8From i (a :: b :: c :: d :: rest) =
      (decodeUtf8From (i + 4) rest).map
        (Char.ofNat (((a.toNat % 8 * 64 + tailBits b) * 64 + tailBits c) * 64 + tailBits d) :: ·) := by
  rw [decodeUtf8From, lead]
  simp [second, third, fourth]

end Sequence

/-- Six bits in a byte of their own, behind the first one. -/
def tailByte (n : Nat) : UInt8 := UInt8.ofNat (n % 64 + 128)

theorem toNat_tailByte (n : Nat) : (tailByte n).toNat = n % 64 + 128 := by
  simp [tailByte]
  omega

@[simp] theorem tailBits_tailByte (n : Nat) : tailBits (tailByte n) = n % 64 := by
  rw [tailBits, toNat_tailByte]
  omega

@[simp] theorem isTail_tailByte (n : Nat) : isTail (tailByte n) = true := by
  simp only [isTail, UInt8.le_iff_toNat_le, toNat_tailByte, Bool.and_eq_true, decide_eq_true_eq]
  constructor
  · exact Nat.le_add_left 128 _
  · change n % 64 + 128 ≤ 191
    omega

theorem tailByte_within {n : Nat} {low high : UInt8} (least : low.toNat ≤ n % 64 + 128)
    (most : n % 64 + 128 ≤ high.toNat) : (tailByte n < low || high < tailByte n) = false := by
  simp only [UInt8.lt_iff_toNat_lt, toNat_tailByte, Bool.or_eq_false_iff, decide_eq_false_iff_not,
    Nat.not_lt]
  exact ⟨least, most⟩

theorem ofNat_of_eq {c : Char} {n : Nat} (same : n = c.val.toNat) : Char.ofNat n = c := by
  subst same
  exact Char.ofNat_toNat c

/-- The bytes of a character are read as that character, whatever follows them. -/
theorem decodeUtf8From_char (i : Nat) (c : Char) (rest : List UInt8) :
    decodeUtf8From i (String.utf8EncodeChar c ++ rest) =
      (decodeUtf8From (i + (String.utf8EncodeChar c).length) rest).map (c :: ·) := by
  have scalar : c.val.toNat < 0xD800 ∨ (0xDFFF < c.val.toNat ∧ c.val.toNat < 0x110000) := c.valid
  rw [String.utf8EncodeChar.eq_1]
  generalize same : c.val.toNat = n at scalar
  simp only [show ∀ m : Nat, UInt8.ofNat (m % 64 + 128) = tailByte m from fun _ => rfl]
  by_cases one : n ≤ 0x7F
  · have head : (UInt8.ofNat n).toNat = n := by simp; omega
    rw [if_pos one]
    refine (decodeUtf8From_one i (utf8Lead?_one (by omega))).trans ?_
    rw [ofNat_of_eq (c := c) (by omega)]
    rfl
  rw [if_neg one]
  by_cases two : n ≤ 0x7FF
  · have head : (UInt8.ofNat (n / 64 % 32 + 192)).toNat = n / 64 + 192 := by simp; omega
    rw [if_pos two]
    refine (decodeUtf8From_two i (utf8Lead?_two (by omega) (by omega))
      (tailByte_within ?_ ?_)).trans ?_
    · exact Nat.le_add_left 0x80 (n % 64)
    · change n % 64 + 128 ≤ 0xBF
      omega
    · rw [head, tailBits_tailByte, ofNat_of_eq (c := c) (by omega)]
      rfl
  rw [if_neg two]
  by_cases three : n ≤ 0xFFFF
  · have head : (UInt8.ofNat (n / 4096 % 16 + 224)).toNat = n / 4096 + 224 := by simp; omega
    rw [if_pos three]
    refine (decodeUtf8From_three i (utf8Lead?_three (by omega) (by omega))
      (tailByte_within ?_ ?_) (isTail_tailByte _)).trans ?_
    · rw [head]
      split
      · change 0xA0 ≤ n / 64 % 64 + 128
        omega
      · exact Nat.le_add_left 0x80 _
    · rw [head]
      split
      · change n / 64 % 64 + 128 ≤ 0x9F
        omega
      · change n / 64 % 64 + 128 ≤ 0xBF
        omega
    · rw [head, tailBits_tailByte, tailBits_tailByte, ofNat_of_eq (c := c) (by omega)]
      rfl
  · have head : (UInt8.ofNat (n / 262144 % 8 + 240)).toNat = n / 262144 + 240 := by simp; omega
    rw [if_neg three]
    refine (decodeUtf8From_four i (utf8Lead?_four (by omega) (by omega))
      (tailByte_within ?_ ?_) (isTail_tailByte _) (isTail_tailByte _)).trans ?_
    · rw [head]
      split
      · change 0x90 ≤ n / 4096 % 64 + 128
        omega
      · exact Nat.le_add_left 0x80 _
    · rw [head]
      split
      · change n / 4096 % 64 + 128 ≤ 0x8F
        omega
      · change n / 4096 % 64 + 128 ≤ 0xBF
        omega
    · rw [head, tailBits_tailByte, tailBits_tailByte, tailBits_tailByte,
        ofNat_of_eq (c := c) (by omega)]
      rfl

theorem decodeUtf8From_encodeUtf8 (i : Nat) (s : List Char) :
    decodeUtf8From i (encodeUtf8 s) = .ok s := by
  induction s generalizing i with
  | nil => rfl
  | cons c s inductionHypothesis =>
      rw [encodeUtf8, List.flatMap_cons, decodeUtf8From_char, ← encodeUtf8, inductionHypothesis]
      rfl

@[simp] theorem decodeUtf8_utf8Bytes (s : String) : decodeUtf8 (utf8Bytes s) = .ok s.toList :=
  decodeUtf8From_encodeUtf8 0 s.toList

end ManagedDebugger.Text
