/-!
Binary floating-point formats, read and written exactly. A finite value is `m * 2 ^ q`; `nearest`
rounds a rational to the closest value of a format, the even neighbour on a tie.
-/

namespace ManagedDebugger.Number

/-- A binary interchange format: a sign bit, then `exponent` bits, then `fraction` bits. -/
structure Format where
  fraction : Nat
  exponent : Nat
  deriving DecidableEq, Repr

def single : Format := ⟨23, 8⟩

def double : Format := ⟨52, 11⟩

/-- What a bit pattern stands for. -/
inductive Reading where
  | nan
  | infinite (negative : Bool)
  | finite (negative : Bool) (m : Nat) (q : Int)
  deriving DecidableEq, Repr

/-- `num / den` rounded to an integer, a half to the even neighbour. -/
def roundEven (num den : Nat) : Nat :=
  let floor := num / den
  let twice := 2 * (num % den)
  if twice < den then floor
  else if den < twice then floor + 1
  else floor + floor % 2

/-- The largest `k` with `2 ^ k ≤ num / den`, for a positive fraction. -/
def magnitude (num den : Nat) : Int :=
  let guess : Int := (num.log2 : Int) - den.log2
  let reached :=
    if 0 ≤ guess then den * Nat.pow 2 guess.toNat ≤ num else den ≤ num * Nat.pow 2 (-guess).toNat
  if reached then guess else guess - 1

namespace Format

variable (f : Format)

/-- The exponent of the unit of the smallest values. -/
def least : Int := 2 - Nat.pow 2 (f.exponent - 1) - f.fraction

/-- The pattern of positive infinity. -/
def infinity : Nat := (Nat.pow 2 f.exponent - 1) * Nat.pow 2 f.fraction

def signBit : Nat := Nat.pow 2 (f.exponent + f.fraction)

def read (bits : Nat) : Reading :=
  let negative := bits / f.signBit % 2 == 1
  let e := bits / Nat.pow 2 f.fraction % Nat.pow 2 f.exponent
  let m := bits % Nat.pow 2 f.fraction
  if e + 1 = Nat.pow 2 f.exponent then
    if m = 0 then .infinite negative else .nan
  else if e = 0 then .finite negative m f.least
  else .finite negative (Nat.pow 2 f.fraction + m) (f.least + e - 1)

def withSign (negative : Bool) (magnitude : Nat) : Nat :=
  if negative then f.signBit + magnitude else magnitude

/-- The pattern of a quiet value that is no number. -/
def quietNaN : Nat := f.infinity + Nat.pow 2 (f.fraction - 1)

/-- The pattern nearest to `num / den`. The unit `2 ^ q` is the one of the value's own binade, so a
quotient that rounds up to the next binade carries into the exponent by itself. -/
def nearest (negative : Bool) (num den : Nat) : Nat :=
  if num = 0 then f.withSign negative 0
  else
    let q := max f.least (magnitude num den - f.fraction)
    let m := if 0 ≤ q then roundEven num (den * Nat.pow 2 q.toNat)
      else roundEven (num * Nat.pow 2 (-q).toNat) den
    f.withSign negative (min f.infinity ((q - f.least).toNat * Nat.pow 2 f.fraction + m))

/-- The pattern nearest to `m * 2 ^ q`. -/
def nearestBinary (negative : Bool) (m : Nat) (q : Int) : Nat :=
  if 0 ≤ q then f.nearest negative (m * Nat.pow 2 q.toNat) 1
  else f.nearest negative m (Nat.pow 2 (-q).toNat)

def ofInt (x : Int) : Nat := f.nearest (x < 0) x.natAbs 1

/-- Decimal magnitudes beyond this one are infinite, and below its negative zero, in every format
with at most eleven exponent bits. -/
def decimalReach : Int := 400

/-- The pattern nearest to `digits * 10 ^ e`. -/
def ofDecimal (digits : Nat) (e : Int) : Nat :=
  if digits = 0 then 0
  else
    let top := (Nat.toDigits 10 digits).length + e
    if decimalReach < top then f.infinity
    else if top < -decimalReach then 0
    else if 0 ≤ e then f.nearest false (digits * Nat.pow 10 e.toNat) 1
    else f.nearest false digits (Nat.pow 10 (-e).toNat)

/-- The same value in the format `f`, rounded where it does not fit. -/
def convert (g : Format) (bits : Nat) : Nat :=
  match g.read bits with
  | .nan => f.quietNaN
  | .infinite negative => f.withSign negative f.infinity
  | .finite negative m q => f.nearestBinary negative m q

/-- The product of two values, which have to be finite. -/
def product (x y : Nat) : Nat :=
  match f.read x, f.read y with
  | .finite s m q, .finite t n r => f.nearestBinary (s != t) (m * n) (q + r)
  | _, _ => f.quietNaN

/-- The quotient of two values, which have to be finite; nothing is divided by zero. -/
def quotient (x y : Nat) : Nat :=
  match f.read x, f.read y with
  | .finite s m q, .finite t n r =>
    if n = 0 then f.quietNaN
    else if r ≤ q then f.nearest (s != t) (m * Nat.pow 2 (q - r).toNat) n
    else f.nearest (s != t) m (n * Nat.pow 2 (r - q).toNat)
  | _, _ => f.quietNaN

/-- What is left of `x` after taking away a whole multiple of `y`, rounded toward zero; it has the
sign of `x` and is exact. -/
def remainder (x y : Nat) : Nat :=
  match f.read x, f.read y with
  | .nan, _ | _, .nan | .infinite _, _ => f.quietNaN
  | .finite .., .infinite _ => x
  | .finite negative m q, .finite _ n r =>
    if n = 0 then f.quietNaN
    else
      let unit := min q r
      let rest := m * Nat.pow 2 (q - unit).toNat % (n * Nat.pow 2 (r - unit).toNat)
      f.nearestBinary negative rest unit

def isNaN (bits : Nat) : Bool := f.read bits matches .nan

end Format

end ManagedDebugger.Number
