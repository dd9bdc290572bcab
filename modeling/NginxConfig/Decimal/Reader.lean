import NginxConfig.Decimal.Binary64

/-!
# Reading decimal text

`Numeral` is the exact number that a text writes down.  Two roundings to a
double are given: `Numeral.nearest`, the double nearest to the exact number,
and `Numeral.quick`, which rounds once for the leading digits and once more
for each power of ten applied to them.
-/

namespace NginxConfig.Decimal

/-- The number `digits * 10 ^ exponent` under a sign. -/
structure Numeral where
  negative : Bool
  digits : Nat
  exponent : Int
  deriving Repr, DecidableEq

/-- A decimal exponent above which every number is beyond the range of
doubles, and below whose negative every number rounds to zero. -/
def exponentReach : Int := 400

/-- The rounding of a numeral by `round`, which is spared numbers that are far
out of range. -/
def Numeral.roundWith (n : Numeral) (round : Bool → Nat → Nat → Float) : Float :=
  let magnitude := n.exponent + (toString n.digits).length
  if n.digits = 0 ∨ magnitude < -exponentReach then encode n.negative 0 leastExponent
  else if exponentReach < magnitude then infinity n.negative
  else
    let (up, down) := tenPower n.exponent
    round n.negative (n.digits * up) down

/-- The double nearest to the number. -/
def Numeral.nearest (n : Numeral) : Float :=
  n.roundWith Decimal.nearest

/-- The single-precision number nearest to the number, as a double. -/
def Numeral.nearestSingle (n : Numeral) : Float :=
  n.roundWith Decimal.nearestSingle

def digitValue (c : Char) : Nat :=
  c.toNat - '0'.toNat

def ofDigits (cs : List Char) : Nat :=
  cs.foldl (fun n c => 10 * n + digitValue c) 0

/-- A sign, if there is one, and the rest. -/
def takeSign : List Char → Bool × List Char
  | '-' :: cs => (true, cs)
  | '+' :: cs => (false, cs)
  | cs => (false, cs)

/-- What a text of a number says: a finite number, or one of the three that
are not finite. -/
inductive Literal where
  | numeral (n : Numeral)
  | infinite (negative : Bool)
  | undefined
  deriving Repr

/-- An exponent part to its end, if there is one. -/
def exponentPart? : List Char → Option Int
  | [] => some 0
  | c :: cs =>
    if c = 'e' ∨ c = 'E' then
      let (negative, ds) := takeSign cs
      if ds.isEmpty || !ds.all Char.isDigit then none
      else
        let n : Int := ofDigits ds
        some (if negative then -n else n)
    else none

/-- A decimal number: digits with or without a point among, before or after
them, and an exponent after that. -/
def numeral? (negative : Bool) (cs : List Char) : Option Numeral := do
  let whole := cs.takeWhile Char.isDigit
  let rest := cs.dropWhile Char.isDigit
  let (fraction, rest) :=
    match rest with
    | '.' :: rest => (rest.takeWhile Char.isDigit, rest.dropWhile Char.isDigit)
    | rest => ([], rest)
  if whole.isEmpty && fraction.isEmpty then none
  else
    let e ← exponentPart? rest
    some ⟨negative, ofDigits (whole ++ fraction), e - fraction.length⟩

def literal? (s : String) : Option Literal :=
  let (negative, cs) := takeSign s.toList
  let name := String.ofList (cs.map Char.toLower)
  if name = "inf" ∨ name = "infinity" then some (.infinite negative)
  else if name = "nan" then some .undefined
  else (numeral? negative cs).map .numeral

/-- The double that is not a number. -/
def undefinedFloat : Float := Float.ofBits 0x7FF8000000000000

def Literal.round (numeral : Numeral → Float) : Literal → Float
  | .numeral n => numeral n
  | .infinite negative => infinity negative
  | .undefined => undefinedFloat

/-- The double nearest to the number that a text writes down. -/
def read? (s : String) : Option Float :=
  (literal? s).map (·.round Numeral.nearest)

def readSingle? (s : String) : Option Float :=
  (literal? s).map (·.round Numeral.nearestSingle)

/-! ## Rounding step by step -/

/-- The greatest power of ten that is a double. -/
def greatestPower : Nat := 308

def powerOfTen (n : Nat) : Float :=
  Decimal.nearest false (Nat.pow 10 n) 1

/-- Divides by the greatest power until the exponent is within its reach, and
then by what is left. -/
def divideByPower (x : Float) (n : Nat) : Float :=
  if n ≤ greatestPower then x / powerOfTen n
  else if x == 0 then x
  else divideByPower (x / powerOfTen greatestPower) (n - greatestPower)
termination_by n
decreasing_by simp only [greatestPower] at *; omega

/-- The rounded digits times the rounded power of ten, itself rounded; `none`
is a number beyond the range. -/
def Numeral.quick (n : Numeral) : Option Float :=
  let x := Float.ofNat n.digits
  let scaled :=
    if n.exponent < 0 then some (divideByPower x n.exponent.natAbs)
    else if n.exponent.toNat ≤ greatestPower then
      let y := x * powerOfTen n.exponent.toNat
      if y.isInf then none else some y
    else if n.digits = 0 then some x
    else none
  scaled.map fun y => if n.negative then -y else y

end NginxConfig.Decimal
