import NginxConfig.Decimal.Shortest

/-!
# Laying out decimal text

A number is written either positionally or with an exponent.  `Layout` holds
the decisions in which the formats of this library differ; the digits come
from `shortest`, or from the exact value where a format wants all of it.
-/

namespace NginxConfig.Decimal

/-- The decisions of a number format. -/
structure Layout where
  /-- What follows the digits of a whole number. -/
  wholeSuffix : String
  /-- The decimal exponents written positionally; `none` means all of them. -/
  positional : Option (Int × Int)
  /-- The choice between two shortest texts that are equally near. -/
  tie : Tie
  /-- The texts of what is not finite. -/
  infinity : String
  negativeInfinity : String
  undefined : String

/-- The text of `digits * 10 ^ grid` with a point and no exponent. -/
def positionalText (wholeSuffix : String) (digits : Nat) (grid : Int) : String :=
  if 0 ≤ grid then toString (digits * Nat.pow 10 grid.toNat) ++ wholeSuffix
  else
    let places := (-grid).toNat
    let cs := (toString digits).toList
    let padded := List.replicate (places + 1 - cs.length) '0' ++ cs
    String.ofList (padded.take (padded.length - places)) ++ "." ++
      String.ofList (padded.drop (padded.length - places))

/-- The text of `digits * 10 ^ grid` with one digit before the point and a
signed exponent. -/
def exponentText (digits : Nat) (grid : Int) : String :=
  let cs := (toString digits).toList
  let exponent := grid + (cs.length - 1 : Nat)
  let mantissa :=
    match cs with
    | [] => ""
    | [c] => String.ofList [c]
    | c :: rest => String.ofList (c :: '.' :: rest)
  mantissa ++ (if 0 ≤ exponent then "e+" else "e-") ++ toString exponent.natAbs

def signText (negative : Bool) : String :=
  if negative then "-" else ""

def Layout.magnitude (layout : Layout) (digits : Nat) (grid : Int) : String :=
  let exponent := grid + ((toString digits).length - 1 : Nat)
  match layout.positional with
  | none => positionalText layout.wholeSuffix digits grid
  | some (least, greatest) =>
    if least ≤ exponent ∧ exponent ≤ greatest then
      positionalText layout.wholeSuffix digits grid
    else exponentText digits grid

/-- The shortest text of a double that reads back as the same double. -/
def Layout.text (layout : Layout) (x : Float) : String :=
  match decode x with
  | .undefined => layout.undefined
  | .infinite false => layout.infinity
  | .infinite true => layout.negativeInfinity
  | .finite negative 0 _ => signText negative ++ layout.magnitude 0 0
  | .finite negative (m + 1) e =>
    let (digits, grid) := shortest layout.tie (m + 1) e
    signText negative ++ layout.magnitude digits grid

/-- All digits of a whole number, and `none` for any other. -/
def wholeDigits (significand : Nat) (exponent : Int) : Option Nat :=
  let (up, down) := twoPower exponent
  if significand * up % down = 0 then some (significand * up / down) else none

/-- Whole numbers in full with one fractional digit, all others as the layout
has them. -/
def Layout.textExactWhole (layout : Layout) (x : Float) : String :=
  match decode x with
  | .finite negative m e =>
    match wholeDigits m e with
    | some n => signText negative ++ toString n ++ ".0"
    | none => layout.text x
  | _ => layout.text x

/-- Positional at any size; a whole number has no point. -/
def plain : Layout := ⟨"", none, .away, "inf", "-inf", "NaN"⟩

/-- Positional at any size; a whole number keeps a point. -/
def pointed : Layout := ⟨".0", none, .away, "inf", "-inf", "nan"⟩

/-- With an exponent below `10 ^ -5` and from `10 ^ 16` on; what is not finite
has no number. -/
def compact : Layout := ⟨".0", some (-5, 15), .even, "null", "null", "null"⟩

end NginxConfig.Decimal
