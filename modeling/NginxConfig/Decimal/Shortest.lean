import NginxConfig.Decimal.Binary64

/-!
# The fewest digits that read back

Every real number between the midpoints of a double and its two neighbours
rounds to that double.  The digits chosen here are those of the point nearest
to the double on the coarsest decimal grid that has a point in this interval.
The midpoints themselves belong to it when the significand is even, since a
half is rounded to the even neighbour.  Where the double is a midpoint of the
grid, formats differ in which of the two points they take.
-/

namespace NginxConfig.Decimal

/-- The reals that round to one double, as numerators over a common
denominator. -/
structure Interval where
  low : Nat
  value : Nat
  high : Nat
  den : Nat
  closed : Bool
  deriving Repr

/-- The neighbour below the least significand of a binade is only half as far
away as the one above it. -/
def Interval.around (significand : Nat) (exponent : Int) : Interval :=
  let (up, down) := twoPower exponent
  let below := if significand = hiddenBit ∧ leastExponent < exponent then 1 else 2
  { low := (4 * significand - below) * up
    value := 4 * significand * up
    high := (4 * significand + 2) * up
    den := 4 * down
    closed := significand % 2 == 0 }

/-- Whether `num / den` lies in the interval, for its own `den`. -/
def Interval.contains (i : Interval) (num scale : Nat) : Bool :=
  if i.closed then i.low * scale ≤ num && num ≤ i.high * scale
  else i.low * scale < num && num < i.high * scale

/-- Which of two points at the same distance is taken. -/
inductive Tie where
  /-- The one whose last digit is even. -/
  | even
  /-- The one farther from zero. -/
  | away
  deriving DecidableEq, Repr

/-- Whether the lower of two points at the same distance is taken. -/
def Tie.takesLower (tie : Tie) (lower : Nat) : Bool :=
  match tie with
  | .even => lower % 2 == 0
  | .away => false

/-- The nearest of the two grid points around the value that lies in the
interval, as a multiple of `10 ^ grid`. -/
def Interval.pointOn (i : Interval) (tie : Tie) (grid : Int) : Option Nat :=
  let (up, down) := tenPower grid
  let unit := up * i.den
  let floor := i.value * down / unit
  let ceiling := floor + 1
  let below := i.value * down - floor * unit
  let above := ceiling * unit - i.value * down
  match i.contains (floor * unit) down, i.contains (ceiling * unit) down with
  | true, true =>
    some (if below < above ∨ (below = above ∧ tie.takesLower floor) then floor else ceiling)
  | true, false => some floor
  | false, true => some ceiling
  | false, false => none

/-- Goes down from the grid `10 ^ start`, over `steps` grids. -/
def Interval.coarsest (i : Interval) (tie : Tie) : Nat → Int → Option (Nat × Int)
  | 0, _ => none
  | steps + 1, start =>
    match i.pointOn tie start with
    | some digits => some (digits, start)
    | none => i.coarsest tie steps (start - 1)

/-- The grid above every double. -/
def topGrid : Int := 309

/-- The number of grids from there to the finest one that a double can need. -/
def gridCount : Nat := 650

/-- Digits and power of ten of the shortest decimal that reads back as the
positive double `significand * 2 ^ exponent`. -/
def shortest (tie : Tie) (significand : Nat) (exponent : Int) : Nat × Int :=
  ((Interval.around significand exponent).coarsest tie gridCount topGrid).getD (0, 0)

end NginxConfig.Decimal
