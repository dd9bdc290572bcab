import NginxConfig.Document

/-!
# Numbers and times in TOML

A date or a time is a table of one entry, which holds its text in one form.
-/

namespace NginxConfig.Toml

/-! ## Digits -/

/-- Whether underscores stand between digits only. -/
def areSeparated : List Char → Bool
  | [] => false
  | [c] => c != '_'
  | c :: d :: rest => !(c == '_' && d == '_') && areSeparated (d :: rest)

/-- Digits of a kind with single underscores between them: the digits alone,
and the rest. -/
def digits? (isDigit : Char → Bool) (cs : List Char) : Option (List Char × List Char) :=
  let run := cs.takeWhile fun c => isDigit c || c == '_'
  if run.head? = some '_' || !areSeparated run then none
  else some (run.filter isDigit, cs.drop run.length)

/-- A whole number in base ten, which starts with zero only if it is zero. -/
def whole? (cs : List Char) : Option (List Char × List Char) :=
  match cs with
  | '0' :: rest => some (['0'], rest)
  | cs => digits? Char.isDigit cs

def isHexDigit (c : Char) : Bool :=
  c.isDigit || ('a' ≤ c && c ≤ 'f') || ('A' ≤ c && c ≤ 'F')

def isOctalDigit (c : Char) : Bool := '0' ≤ c && c ≤ '7'

def isBinaryDigit (c : Char) : Bool := c == '0' || c == '1'

def digitOf (c : Char) : Nat :=
  if c.isDigit then c.toNat - '0'.toNat else c.toLower.toNat - 'a'.toNat + 10

def inBase (base : Nat) (ds : List Char) : Nat :=
  ds.foldl (fun n c => base * n + digitOf c) 0

/-! ## Numbers -/

/-- Integers have 64 bits with a sign. -/
def integerOf? (negative : Bool) (n : Nat) : Option Document :=
  if negative then if n ≤ Nat.pow 2 63 then some (.int (-n)) else none
  else if n < Nat.pow 2 63 then some (.int n) else none

def based? (isDigit : Char → Bool) (base : Nat) (cs : List Char) :
    Option (Document × List Char) :=
  (digits? isDigit cs).bind fun (ds, rest) =>
    (integerOf? false (inBase base ds)).map (·, rest)

/-- An exponent after its letter. -/
def exponent? (cs : List Char) : Option (Int × List Char) :=
  let (negative, cs) := Decimal.takeSign cs
  (digits? Char.isDigit cs).map fun (ds, rest) =>
    let n : Int := Decimal.ofDigits ds
    (if negative then -n else n, rest)

/-- The nearest double, unless it lies above the range. -/
def floatOf? (n : Decimal.Numeral) : Option Document :=
  let x := n.nearest
  if x.isInf && !n.negative then none else some (.float x)

def isExponentLetter (c : Char) : Bool := c == 'e' || c == 'E'

/-- A number in base ten after its sign.  It is an integer unless it has a
fraction or an exponent. -/
def decimal? (negative : Bool) (cs : List Char) : Option (Document × List Char) :=
  (whole? cs).bind fun (whole, rest) =>
    match rest with
    | '.' :: rest =>
      (digits? Char.isDigit rest).bind fun (fraction, rest) =>
        let digits := Decimal.ofDigits (whole ++ fraction)
        match rest with
        | c :: more =>
          if isExponentLetter c then
            (exponent? more).bind fun (e, rest) =>
              (floatOf? ⟨negative, digits, e - fraction.length⟩).map (·, rest)
          else (floatOf? ⟨negative, digits, -fraction.length⟩).map (·, rest)
        | [] => (floatOf? ⟨negative, digits, -fraction.length⟩).map (·, [])
    | c :: more =>
      if isExponentLetter c then
        (exponent? more).bind fun (e, rest) =>
          (floatOf? ⟨negative, Decimal.ofDigits whole, e⟩).map (·, rest)
      else (integerOf? negative (Decimal.ofDigits whole)).map (·, rest)
    | [] => (integerOf? negative (Decimal.ofDigits whole)).map (·, [])

/-- A number from its sign or first digit on. -/
def number? : List Char → Option (Document × List Char)
  | '0' :: 'x' :: rest => based? isHexDigit 16 rest
  | '0' :: 'o' :: rest => based? isOctalDigit 8 rest
  | '0' :: 'b' :: rest => based? isBinaryDigit 2 rest
  | cs =>
    let (negative, rest) := Decimal.takeSign cs
    match rest with
    | 'i' :: 'n' :: 'f' :: rest => some (.float (Decimal.infinity negative), rest)
    | 'n' :: 'a' :: 'n' :: rest => some (.float Decimal.undefinedFloat, rest)
    | rest => decimal? negative rest

/-! ## Times -/

/-- A number of exactly so many digits. -/
def fixed? (count : Nat) (cs : List Char) : Option (Nat × List Char) :=
  let ds := cs.take count
  if ds.length = count ∧ ds.all Char.isDigit then some (Decimal.ofDigits ds, cs.drop count)
  else none

def isLeapYear (year : Nat) : Bool :=
  year % 4 == 0 && (year % 100 != 0 || year % 400 == 0)

def daysIn (year month : Nat) : Nat :=
  if month = 2 then if isLeapYear year then 29 else 28
  else if month ∈ [4, 6, 9, 11] then 30
  else 31

/-- A number in decimal, filled up with zeros on the left. -/
def padded (width n : Nat) : String :=
  let cs := (toString n).toList
  String.ofList (List.replicate (width - cs.length) '0' ++ cs)

def date? (cs : List Char) : Option (String × List Char) := do
  let (year, cs) ← fixed? 4 cs
  let cs ← cs.head?.bind fun c => if c = '-' then some (cs.drop 1) else none
  let (month, cs) ← fixed? 2 cs
  let cs ← cs.head?.bind fun c => if c = '-' then some (cs.drop 1) else none
  let (day, cs) ← fixed? 2 cs
  if 1 ≤ month ∧ month ≤ 12 ∧ 1 ≤ day ∧ day ≤ daysIn year month then
    some (padded 4 year ++ "-" ++ padded 2 month ++ "-" ++ padded 2 day, cs)
  else none

/-- How many digits of a fraction of a second count. -/
def fractionDigits : Nat := 9

/-- The text of a fraction of a second: its first digits, less the zeros at
their end. -/
def fractionText (ds : List Char) : String :=
  let kept := ((ds.take fractionDigits).reverse.dropWhile (· == '0')).reverse
  if kept.isEmpty then "" else "." ++ String.ofList kept

def time? (cs : List Char) : Option (String × List Char) := do
  let (hour, cs) ← fixed? 2 cs
  let cs ← cs.head?.bind fun c => if c = ':' then some (cs.drop 1) else none
  let (minute, cs) ← fixed? 2 cs
  let cs ← cs.head?.bind fun c => if c = ':' then some (cs.drop 1) else none
  let (second, cs) ← fixed? 2 cs
  if hour ≤ 23 ∧ minute ≤ 59 ∧ second ≤ 60 then
    let clock := padded 2 hour ++ ":" ++ padded 2 minute ++ ":" ++ padded 2 second
    match cs with
    | '.' :: rest =>
      match rest.takeWhile Char.isDigit with
      | [] => none
      | ds => some (clock ++ fractionText ds, rest.dropWhile Char.isDigit)
    | rest => some (clock, rest)
  else none

/-- How far a clock is ahead of the universal one; none if nothing is said. -/
def offset? (cs : List Char) : Option (String × List Char) :=
  match cs with
  | 'Z' :: rest => some ("Z", rest)
  | 'z' :: rest => some ("Z", rest)
  | c :: rest =>
    if c = '+' ∨ c = '-' then do
      let (hour, rest) ← fixed? 2 rest
      let rest ← rest.head?.bind fun c => if c = ':' then some (rest.drop 1) else none
      let (minute, rest) ← fixed? 2 rest
      if hour ≤ 23 ∧ minute ≤ 59 then
        let sign := if c = '-' ∧ 0 < 60 * hour + minute then "-" else "+"
        some (sign ++ padded 2 hour ++ ":" ++ padded 2 minute, rest)
      else none
    else some ("", cs)
  | [] => some ("", [])

/-- A date, a date with a time, or a time. -/
def moment? (cs : List Char) : Option (String × List Char) :=
  match date? cs with
  | some (date, rest) =>
    match rest with
    | c :: more =>
      if c = 'T' ∨ c = 't' ∨ c = ' ' then
        match time? more with
        | some (time, rest) =>
          (offset? rest).map fun (offset, rest) => (date ++ "T" ++ time ++ offset, rest)
        | none => some (date, rest)
      else some (date, rest)
    | [] => some (date, [])
  | none => time? cs

/-- The key under which the text of a date or time stands. -/
def momentKey : String := "$__toml_private_datetime"

def momentDocument (text : String) : Document :=
  .table [(momentKey, .text text)]

end NginxConfig.Toml
