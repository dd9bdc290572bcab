/-!
# Doubles as exact numbers

A finite double is `significand * 2 ^ exponent`.  This module takes doubles
apart into that form and rounds exact quotients back, so that all decimal
text is decided in `Nat` arithmetic.
-/

namespace NginxConfig.Decimal

/-- What a double stands for. -/
inductive Real where
  | finite (negative : Bool) (significand : Nat) (exponent : Int)
  | infinite (negative : Bool)
  | undefined
  deriving Repr, DecidableEq

/-- The exponent of the least positive double. -/
def leastExponent : Int := -1074

/-- The first significand that is not subnormal. -/
def hiddenBit : Nat := Nat.pow 2 52

def decode (x : Float) : Real :=
  let bits : Nat := x.toBits.toNat
  let negative := decide (Nat.pow 2 63 ≤ bits)
  let biased : Nat := bits / hiddenBit % Nat.pow 2 11
  let fraction : Nat := bits % hiddenBit
  if biased = 2047 then
    if fraction = 0 then .infinite negative else .undefined
  else if biased = 0 then .finite negative fraction leastExponent
  else .finite negative (hiddenBit + fraction) ((biased : Int) - 1075)

/-- The powers of two that `2 ^ e` puts above and below the fraction bar. -/
def twoPower (e : Int) : Nat × Nat :=
  (Nat.pow 2 e.toNat, Nat.pow 2 (-e).toNat)

def tenPower (e : Int) : Nat × Nat :=
  (Nat.pow 10 e.toNat, Nat.pow 10 (-e).toNat)

/-- The nearest whole number to a quotient; a half goes to the even neighbour. -/
def roundQuotient (num den : Nat) : Nat :=
  let q := num / den
  let twice := 2 * (num % den)
  if twice < den then q
  else if den < twice then q + 1
  else if q % 2 = 0 then q
  else q + 1

/-- A binary floating point format: the bits of a significand, and the
exponents of the least and the greatest of them. -/
structure Width where
  precision : Nat
  least : Int
  greatest : Int
  deriving Repr

def Width.double : Width := ⟨53, -1074, 971⟩

def Width.single : Width := ⟨24, -149, 104⟩

/-- The exponent at which a quotient of positive numbers fills the significand,
or the least exponent of the format if it is too small for that. -/
def Width.exponentFor (w : Width) (num den : Nat) : Int :=
  let guess : Int := (Nat.log2 num : Int) - Nat.log2 den - w.precision
  let (up, down) := twoPower guess
  let fits := decide (num * down < Nat.pow 2 w.precision * (den * up))
  max w.least (if fits then guess else guess + 1)

/-- The nearest number of the format to `num / den`, as significand and
exponent; `none` is a number beyond the range. -/
def Width.round (w : Width) (num den : Nat) : Option (Nat × Int) :=
  if num = 0 then some (0, w.least)
  else
    let e := w.exponentFor num den
    let (up, down) := twoPower e
    let m := roundQuotient (num * down) (den * up)
    let (m, e) := if m = Nat.pow 2 w.precision then (m / 2, e + 1) else (m, e)
    if w.greatest < e then none else some (m, e)

/-- The double `significand * 2 ^ exponent`, where the significand has at most
53 bits and all of them unless the exponent is the least. -/
def encode (negative : Bool) (significand : Nat) (exponent : Int) : Float :=
  let sign := if negative then Nat.pow 2 63 else 0
  let bits :=
    if significand < hiddenBit then significand
    else (exponent + 1075).toNat * hiddenBit + (significand - hiddenBit)
  Float.ofBits (UInt64.ofNat (sign + bits))

def infinity (negative : Bool) : Float :=
  Float.ofBits (if negative then 0xFFF0000000000000 else 0x7FF0000000000000)

/-- The double nearest to a quotient; beyond the range, an infinity. -/
def nearest (negative : Bool) (num den : Nat) : Float :=
  match Width.double.round num den with
  | some (m, e) => encode negative m e
  | none => infinity negative

/-- The single-precision number nearest to a quotient, widened to a double. -/
def nearestSingle (negative : Bool) (num den : Nat) : Float :=
  match Width.single.round num den with
  | some (m, e) =>
    let (up, down) := twoPower e
    nearest negative (m * up) down
  | none => infinity negative

end NginxConfig.Decimal
