import ManagedDebugger.Number.Binary

/-!
The fewest decimal digits that read back to a floating-point value, and their positional text.

The reals that round to `m * 2 ^ q` form an interval around it, its ends included when `m` is even.
The first grid `10 ^ e` with a point in that interval gives the digits; of two points the nearer
one is taken, the upper one on a tie.
-/

namespace ManagedDebugger.Number

/-- `digits * 10 ^ exponent`. -/
structure Decimal where
  digits : Nat
  exponent : Int
  deriving DecidableEq, Repr

/-- The numerators of two non-negative quantities `a * 2 ^ q` and `b * 10 ^ e` over one common
denominator. -/
def commonScale (a : Nat) (q : Int) (b : Nat) (e : Int) : Nat × Nat :=
  (a * Nat.pow 2 q.toNat * Nat.pow 10 (-e).toNat, b * Nat.pow 10 e.toNat * Nat.pow 2 (-q).toNat)

/-- The interval of reals that round to `m * 2 ^ q`, in quarters of its unit. -/
structure Interval where
  low : Nat
  value : Nat
  high : Nat
  closed : Bool
  q : Int

/-- Below a power of two the neighbour is half as far, except among the smallest values. -/
def Interval.around (f : Format) (m : Nat) (q : Int) : Interval :=
  let narrow := m = Nat.pow 2 f.fraction ∧ f.least < q
  ⟨if narrow then 4 * m - 1 else 4 * m - 2, 4 * m, 4 * m + 2, m % 2 == 0, q - 2⟩

def Interval.holds (i : Interval) (d : Nat) (e : Int) : Bool :=
  let (low, x) := commonScale i.low i.q d e
  let (high, x') := commonScale i.high i.q d e
  if i.closed then low ≤ x && x' ≤ high else low < x && x' < high

/-- The point of the grid `10 ^ e` in the interval that is nearest to its value. -/
def Interval.pick (i : Interval) (e : Int) : Option Nat :=
  let (v, unit) := commonScale i.value i.q 1 e
  let below := v / unit
  match i.holds below e, i.holds (below + 1) e with
  | true, true => some (if 2 * (v % unit) < unit then below else below + 1)
  | true, false => some below
  | false, true => some (below + 1)
  | false, false => none

/-- Tries the grids from `10 ^ e` down to finer ones. -/
def Interval.search (i : Interval) : Nat → Int → Option Decimal
  | 0, _ => none
  | n + 1, e =>
    match i.pick e with
    | some d => some ⟨d, e⟩
    | none => i.search n (e - 1)

/-- A decimal exponent no smaller than that of `m * 2 ^ q`. -/
def decimalTop (m : Nat) (q : Int) : Int :=
  let bits : Int := m.log2 + 1 + q
  if 0 ≤ bits then bits * 30103 / 100000 + 1 else bits * 30103 / 100000 + 2

/-- Seventeen digits tell any two values of a double apart, and the search starts at most two places
too high. -/
def searchDepth : Nat := 22

/-- The exact decimal value of `m * 2 ^ q`. -/
def Decimal.exact (m : Nat) (q : Int) : Decimal :=
  if 0 ≤ q then ⟨m * Nat.pow 2 q.toNat, 0⟩ else ⟨m * Nat.pow 5 (-q).toNat, q⟩

def Decimal.shortest (f : Format) (m : Nat) (q : Int) : Decimal :=
  if m = 0 then ⟨0, 0⟩
  else ((Interval.around f m q).search searchDepth (decimalTop m q)).getD (.exact m q)

def zeros (n : Nat) : String := String.ofList (List.replicate n '0')

/-- Positional notation: no exponent, no zeros at the end of the fraction, no point before none. -/
def Decimal.positional (d : Decimal) : String :=
  if 0 ≤ d.exponent then toString (d.digits * Nat.pow 10 d.exponent.toNat)
  else
    let places := (-d.exponent).toNat
    let whole := toString (d.digits / Nat.pow 10 places)
    let rest := toString (d.digits % Nat.pow 10 places)
    let fraction := zeros (places - rest.length) ++ rest
    let kept := (fraction.toList.reverse.dropWhile (· == '0')).reverse
    if kept.isEmpty then whole else whole ++ "." ++ String.ofList kept

/-- The names of the values without digits. -/
structure SpecialNames where
  nan : String
  infinity : String
  negativeInfinity : String

def Format.text (f : Format) (names : SpecialNames) (bits : Nat) : String :=
  match f.read bits with
  | .nan => names.nan
  | .infinite negative => if negative then names.negativeInfinity else names.infinity
  | .finite negative m q =>
    (if negative then "-" else "") ++ (Decimal.shortest f m q).positional

end ManagedDebugger.Number
