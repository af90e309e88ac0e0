import ManagedDebugger.Value.Arithmetic
import Mathlib.Data.Int.ModEq

/-!
# Integers of a type

An integral type holds the integers of a range. A conversion to a wider type keeps an integer, and so
does the promotion of an operand. What operators compute in has a width as well: every integer is
congruent, modulo two to the width, to exactly one integer of the range, which is what a reduction
into the type leaves of it.
-/

namespace ManagedDebugger

namespace ElementType

/-- The least integer of a type. -/
def least : ElementType → Int
  | i1 => -2 ^ 7
  | i2 => -2 ^ 15
  | i4 => -2 ^ 31
  | i8 => -2 ^ 63
  | boolean | char | u1 | u2 | u4 | u8 | r4 | r8 => 0

/-- The greatest integer of a type. What is not integral has none. -/
def greatest : ElementType → Int
  | i1 => 2 ^ 7 - 1
  | u1 => 2 ^ 8 - 1
  | i2 => 2 ^ 15 - 1
  | char | u2 => 2 ^ 16 - 1
  | i4 => 2 ^ 31 - 1
  | u4 => 2 ^ 32 - 1
  | i8 => 2 ^ 63 - 1
  | u8 => 2 ^ 64 - 1
  | boolean | r4 | r8 => -1

/-- The integer is in the range of the type. -/
def Holds (t : ElementType) (x : Int) : Prop := t.least ≤ x ∧ x ≤ t.greatest

instance (t : ElementType) : DecidablePred t.Holds :=
  fun x => inferInstanceAs (Decidable (t.least ≤ x ∧ x ≤ t.greatest))

theorem holds_of_toInt? {p : Primitive} {x : Int} (value : p.toInt? = some x) :
    p.type.Holds x := by
  cases p with
  | bool | f32 | f64 => cases value
  | char v | u8 v | u16 v | u32 v | u64 v =>
      obtain rfl := Option.some.inj value
      have most := v.toNat_lt
      constructor <;> simp only [Primitive.type, least, greatest] <;> omega
  | i8 v | i16 v | i32 v | i64 v =>
      obtain rfl := Option.some.inj value
      have least := v.le_toInt
      have most := v.toInt_lt
      constructor <;> simp only [Primitive.type, ElementType.least, greatest] <;> omega

/-- A wider type holds what a type holds. -/
theorem Holds.widens {s t : ElementType} {x : Int} (holds : s.Holds x)
    (widens : s.widensTo t = true) (integral : t.isIntegral = true) : t.Holds x := by
  cases s <;> cases t <;>
    simp [widensTo, wider, isIntegral, Holds, least, greatest] at widens integral holds ⊢ <;> omega

/-- Only integers convert to integers. -/
theorem isIntegral_of_widensTo {s t : ElementType} (widens : s.widensTo t = true)
    (integral : t.isIntegral = true) : s.isIntegral = true := by
  cases s with
  | boolean | r4 | r8 =>
      cases t <;> simp [widensTo, wider, isIntegral] at widens integral
  | _ => rfl

/-- The lower bits of an integer of the type are those of the integer itself. -/
theorem toInt?_ofPattern {t : ElementType} {x : Int} (holds : t.Holds x) :
    (Primitive.ofPattern t (x % UInt64.size).toNat).toInt? = some x := by
  cases t with
  | boolean | r4 | r8 => simp [Holds, least, greatest] at holds; omega
  | char | u1 | u2 | u4 | u8 =>
      simp [Holds, least, greatest, Primitive.ofPattern, Primitive.toInt?] at holds ⊢
      omega
  | i1 | i2 | i4 | i8 =>
      simp [Holds, least, greatest, Primitive.ofPattern, Primitive.toInt?, Int.bmod] at holds ⊢
      omega

end ElementType

namespace Primitive

variable {p : Primitive} {wanted : ElementType} {x : Int}

theorem isIntegral_type (value : p.toInt? = some x) : p.type.isIntegral = true := by
  cases p with
  | bool | f32 | f64 => cases value
  | _ => rfl

theorem exists_toInt? (integral : p.type.isIntegral = true) : ∃ x, p.toInt? = some x := by
  cases p with
  | bool | f32 | f64 => cases integral
  | _ => exact ⟨_, rfl⟩

theorem convert?_of_isIntegral (other : p.type ≠ wanted) (value : p.toInt? = some x)
    (integral : wanted.isIntegral = true) :
    p.convert? wanted = some (ofPattern wanted (x % UInt64.size).toNat) := by
  unfold convert?
  rw [if_neg other, value]
  cases wanted with
  | boolean | r4 | r8 => cases integral
  | _ => rfl

theorem convert?_of_not_isIntegral (other : p.type ≠ wanted)
    (widens : p.type.widensTo wanted = true) (integral : wanted.isIntegral = false) :
    ∃ converted, p.convert? wanted = some converted ∧ converted.type = wanted := by
  unfold convert?
  rw [if_neg other]
  cases wanted with
  | boolean =>
      cases p with
      | bool => exact absurd rfl other
      | _ => cases widens
  | r4 | r8 =>
      cases p with
      | bool => cases widens
      | _ => first | exact ⟨_, rfl, rfl⟩ | exact absurd rfl other
  | _ => cases integral

/-- A value converts to every type that is wider than its own. An integer stays the same there,
unless it becomes a floating-point value. -/
theorem convert?_of_widensTo (widens : p.type.widensTo wanted = true) :
    ∃ converted, p.convert? wanted = some converted ∧ converted.type = wanted ∧
      (wanted.isIntegral = true → converted.toInt? = p.toInt?) := by
  by_cases same : p.type = wanted
  · exact ⟨p, if_pos same, same, fun _ => rfl⟩
  cases integral : wanted.isIntegral with
  | false =>
      obtain ⟨converted, converts, type⟩ := convert?_of_not_isIntegral same widens integral
      exact ⟨converted, converts, type, nofun⟩
  | true =>
      obtain ⟨x, value⟩ := exists_toInt? (ElementType.isIntegral_of_widensTo widens integral)
      refine ⟨_, convert?_of_isIntegral same value integral, type_ofPattern _ _, fun _ => ?_⟩
      rw [value]
      have held := (ElementType.holds_of_toInt? value).widens widens integral
      exact ElementType.toInt?_ofPattern held

end Primitive

namespace WordType

/-- The type itself, among those of all values. -/
def element : WordType → ElementType
  | int => .i4
  | uint => .u4
  | long => .i8
  | ulong => .u8

def Holds (t : WordType) (x : Int) : Prop := t.element.Holds x

instance (t : WordType) : DecidablePred t.Holds := inferInstanceAs (DecidablePred t.element.Holds)

/-- An operation comes to the integer, in the type. -/
def Yields (t : WordType) (z : Int) (r : Except EvalError Primitive) : Prop :=
  ∃ p, r = .ok p ∧ p.type = t.element ∧ p.toInt? = some z

/-- An operation comes to what a reduction into the type leaves of the integer. -/
def Reduces (t : WordType) (exact : Int) (r : Except EvalError Primitive) : Prop :=
  ∃ z, t.Yields z r ∧ z ≡ exact [ZMOD 2 ^ t.bits]

/-- What an operation comes to that has an exact result. Without a check the result is reduced into
the type, with one it has to fit. -/
structure Computes (t : WordType) (checked : Bool) (exact : Int)
    (r : Except EvalError Primitive) : Prop where
  unchecked : checked = false → t.Reduces exact r
  fitting : checked = true → t.Holds exact → t.Yields exact r
  overflow : checked = true → ¬ t.Holds exact → r = .error .overflow

theorem wrap_congr (t : WordType) (x : Int) : t.wrap x ≡ x [ZMOD 2 ^ t.bits] := by
  unfold wrap
  split
  · exact Int.bmod_emod
  · exact Int.mod_modEq x _

theorem holds_wrap (t : WordType) (x : Int) : t.Holds (t.wrap x) := by
  have signedLeast (w : Nat) : -((2 ^ w : Nat) / 2 : Int) ≤ x.bmod (2 ^ w) :=
    Int.le_bmod (Nat.two_pow_pos w)
  have signedMost (w : Nat) : x.bmod (2 ^ w) < ((2 ^ w : Nat) + 1) / 2 :=
    Int.bmod_lt (Nat.two_pow_pos w)
  cases t with
  | int => exact ⟨signedLeast 32, Int.le_sub_one_of_lt (signedMost 32)⟩
  | long => exact ⟨signedLeast 64, Int.le_sub_one_of_lt (signedMost 64)⟩
  | uint | ulong =>
      simp [Holds, element, ElementType.Holds, ElementType.least, ElementType.greatest, wrap,
        signed, bits]
      omega

variable {t : WordType} {x y : Int}

/-- There is one integer of the range in each class. -/
theorem Holds.unique (left : t.Holds x) (right : t.Holds y) (same : x ≡ y [ZMOD 2 ^ t.bits]) :
    x = y := by
  cases t <;>
    simp only [Holds, element, ElementType.Holds, ElementType.least, ElementType.greatest, bits,
      Int.ModEq] at left right same <;>
    omega

theorem Holds.wrap (holds : t.Holds x) : t.wrap x = x :=
  (t.holds_wrap x).unique holds (t.wrap_congr x)

theorem fits_iff : t.fits x = true ↔ t.Holds x := by
  rw [fits, beq_iff_eq]
  constructor
  · intro same
    rw [← same]
    exact t.holds_wrap x
  · exact Holds.wrap

theorem toInt?_primitive (t : WordType) (x : Int) :
    (t.primitive x).toInt? = some (t.wrap x) := by
  cases t with
  | int => exact congrArg some Int32.toInt_ofInt
  | long => exact congrArg some Int64.toInt_ofInt
  | uint | ulong =>
      simp [primitive, wrap, signed, bits, Primitive.toInt?, UInt32.ofInt, UInt64.ofInt]
      omega

theorem type_primitive (t : WordType) (x : Int) : (t.primitive x).type = t.element := by
  cases t <;> rfl

theorem yields_wrap (t : WordType) (x : Int) : t.Yields (t.wrap x) (.ok (t.primitive x)) :=
  ⟨t.primitive x, rfl, t.type_primitive x, t.toInt?_primitive x⟩

theorem Holds.yields (holds : t.Holds x) : t.Yields x (.ok (t.primitive x)) := by
  have yields := t.yields_wrap x
  rwa [holds.wrap] at yields

theorem reduces_primitive (t : WordType) (exact : Int) :
    t.Reduces exact (.ok (t.primitive exact)) :=
  ⟨t.wrap exact, t.yields_wrap exact, t.wrap_congr exact⟩

theorem computes_result (t : WordType) (checked : Bool) (exact : Int) :
    t.Computes checked exact (t.result checked exact) := by
  constructor
  · rintro rfl
    exact t.reduces_primitive exact
  · rintro rfl fits
    simp only [result, fits_iff.mpr fits, Bool.not_true, Bool.and_false, Bool.false_eq_true,
      if_false]
    exact fits.yields
  · rintro rfl outside
    simp [result, Bool.eq_false_iff.mpr fun fits => outside (fits_iff.mp fits)]

end WordType

/-- The type that operands of a type are computed in. -/
def ElementType.promoted : ElementType → WordType
  | u4 => .uint
  | i8 => .long
  | u8 => .ulong
  | _ => .int

theorem ElementType.promoted_eq_ulong {t : ElementType} : t.promoted = .ulong ↔ t = .u8 := by
  cases t <;> decide

theorem ElementType.widensTo_promoted {t : ElementType} (integral : t.isIntegral = true) :
    t.widensTo t.promoted.element = true := by
  cases t with
  | boolean | r4 | r8 => cases integral
  | _ => decide

theorem ElementType.isIntegral_element (t : WordType) : t.element.isIntegral = true := by
  cases t <;> rfl

theorem Primitive.holds_promoted {p : Primitive} {x : Int} (value : p.toInt? = some x) :
    p.type.promoted.Holds x :=
  (ElementType.holds_of_toInt? value).widens
    (ElementType.widensTo_promoted (isIntegral_type value)) (ElementType.isIntegral_element _)

theorem Operand.promote?_of_toInt? {p : Primitive} {x : Int} (value : p.toInt? = some x) :
    promote? p = some (.word p.type.promoted x) := by
  cases p with
  | bool | f32 | f64 => cases value
  | _ =>
      obtain rfl := Option.some.inj value
      rfl

end ManagedDebugger
