import NginxConfig.Document
import NginxConfig.Text.Hex

/-!
# Reading JSON

The reader takes a whole text or nothing.  A container inside 127 others is
read to its end but has no value; the same goes for numbers beyond the range
of doubles and for surrogates without a partner.

Recursion is bounded by the number of characters, each call taking at least
one.
-/

namespace NginxConfig.Json

def isSpace (c : Char) : Bool :=
  c == ' ' || c == '\n' || c == '\t' || c == '\r'

def skipSpace (cs : List Char) : List Char :=
  cs.dropWhile isSpace

/-- How many containers may lie in one another. -/
def maxDepth : Nat := 127

/-! ## Texts -/

def isHighSurrogate (n : Nat) : Bool := 0xD800 ≤ n && n < 0xDC00

def isLowSurrogate (n : Nat) : Bool := 0xDC00 ≤ n && n < 0xE000

def joinSurrogates (high low : Nat) : Char :=
  Char.ofNat (0x10000 + (high - 0xD800) * 0x400 + (low - 0xDC00))

/-- The character that a letter after a backslash stands for. -/
def escaped? (c : Char) : Option Char :=
  match c with
  | '\x22' => some '\x22'
  | '\\' => some '\\'
  | '/' => some '/'
  | 'b' => some '\x08'
  | 'f' => some '\x0c'
  | 'n' => some '\n'
  | 'r' => some '\r'
  | 't' => some '\t'
  | _ => none

/-- One piece of a text: a character, or a code unit given by its number. -/
inductive Piece where
  | char (c : Char)
  | unit (n : Nat)
  deriving Repr

/-- The pieces of a text up to its closing quote, and what follows. -/
def pieces : List Char → Option (List Piece × List Char)
  | [] => none
  | '\x22' :: rest => some ([], rest)
  | '\\' :: 'u' :: a :: b :: c :: d :: rest =>
    match Text.hexNumber? [a, b, c, d] with
    | none => none
    | some n => (pieces rest).map fun (ps, r) => (.unit n :: ps, r)
  | '\\' :: c :: rest =>
    match escaped? c with
    | none => none
    | some d => (pieces rest).map fun (ps, r) => (.char d :: ps, r)
  | c :: rest =>
    if c.toNat < 0x20 then none
    else (pieces rest).map fun (ps, r) => (.char c :: ps, r)

/-- The characters that pieces make up, unless a surrogate has no partner. -/
def charsOf? : List Piece → Option (List Char)
  | [] => some []
  | .char c :: rest => (charsOf? rest).map (c :: ·)
  | .unit n :: .unit m :: rest =>
    if isHighSurrogate n then
      if isLowSurrogate m then (charsOf? rest).map (joinSurrogates n m :: ·) else none
    else if isLowSurrogate n then none
    else (charsOf? (.unit m :: rest)).map (Char.ofNat n :: ·)
  | .unit n :: rest =>
    if isHighSurrogate n || isLowSurrogate n then none
    else (charsOf? rest).map (Char.ofNat n :: ·)

def textOf? (ps : List Piece) : Option String :=
  (charsOf? ps).map String.ofList

/-! ## Numbers -/

/-- A significand takes digits as long as it stays below this. -/
def significandLimit : Nat := Nat.pow 2 64

/-- Takes digits into a significand as far as they fit.  Gives the significand,
how many digits it took, and how many were left over. -/
def takeDigits (significand : Nat) : List Char → Nat × Nat × Nat
  | [] => (significand, 0, 0)
  | d :: ds =>
    let next := 10 * significand + Decimal.digitValue d
    if next < significandLimit then
      let (s, taken, left) := takeDigits next ds
      (s, taken + 1, left)
    else (significand, 0, ds.length + 1)

/-- An integer that fits in 64 bits with or without a sign; zero has none. -/
def integer? (negative : Bool) (n : Nat) : Option Int :=
  if negative then
    if 0 < n ∧ n ≤ Nat.pow 2 63 then some (-n) else none
  else some n

def floatOf (n : Decimal.Numeral) : Document :=
  match n.quick with
  | some x => .float x
  | none => .unreadable

/-- The number with the given digits before and after the point and the given
exponent, where a part that was not written is `none`.  Digits after the point
that do not fit are dropped. -/
def numberOf (negative : Bool) (whole : List Char) (fraction : Option (List Char))
    (exponent : Option Int) : Document :=
  let (s, _, left) := takeDigits 0 whole
  match fraction, exponent with
  | none, none =>
    if left = 0 then
      match integer? negative s with
      | some n => .int n
      | none => floatOf ⟨negative, s, 0⟩
    else floatOf ⟨negative, s, left⟩
  | fraction, exponent =>
    let (s, taken, _) := takeDigits s (fraction.getD [])
    floatOf ⟨negative, s, exponent.getD 0 + left - taken⟩

/-- Digits after a point, at least one of them, if there is a point. -/
def fractionPart : List Char → Option (Option (List Char) × List Char)
  | '.' :: rest =>
    match rest.takeWhile Char.isDigit with
    | [] => none
    | ds => some (some ds, rest.dropWhile Char.isDigit)
  | rest => some (none, rest)

def exponentPart : List Char → Option (Option Int × List Char)
  | c :: rest =>
    if c = 'e' ∨ c = 'E' then
      let (negative, rest) := Decimal.takeSign rest
      match rest.takeWhile Char.isDigit with
      | [] => none
      | ds =>
        let n : Int := Decimal.ofDigits ds
        some (some (if negative then -n else n), rest.dropWhile Char.isDigit)
    else some (none, c :: rest)
  | [] => some (none, [])

/-- A number from its first digit on. -/
def number (negative : Bool) (cs : List Char) : Option (Document × List Char) := do
  let whole := cs.takeWhile Char.isDigit
  let rest := cs.dropWhile Char.isDigit
  match whole with
  | [] | '0' :: _ :: _ => none
  | _ =>
    let (fraction, rest) ← fractionPart rest
    let (exponent, rest) ← exponentPart rest
    some (numberOf negative whole fraction exponent, rest)

/-! ## Values -/

/-- The rest of a text after a word. -/
def afterWord? (word : List Char) (cs : List Char) : Option (List Char) :=
  if word.isPrefixOf cs then some (cs.drop word.length) else none

/-- A container at a depth, which has a value unless it lies too deep. -/
def contained (depth : Nat) (d : Document) : Document :=
  if depth < maxDepth then d else .unreadable

mutual

/-- A value after space, inside `depth` containers. -/
def value (fuel depth : Nat) (cs : List Char) : Option (Document × List Char) :=
  match fuel with
  | 0 => none
  | fuel + 1 =>
    match skipSpace cs with
    | [] => none
    | 'n' :: rest => (afterWord? ['u', 'l', 'l'] rest).map (.null, ·)
    | 't' :: rest => (afterWord? ['r', 'u', 'e'] rest).map (.bool true, ·)
    | 'f' :: rest => (afterWord? ['a', 'l', 's', 'e'] rest).map (.bool false, ·)
    | '\x22' :: rest =>
      (pieces rest).map fun (ps, rest) => (((textOf? ps).map .text).getD .unreadable, rest)
    | '-' :: rest => number true rest
    | '[' :: rest =>
      match skipSpace rest with
      | ']' :: rest => some (contained depth (.list []), rest)
      | rest => (items fuel depth rest).map fun (ds, rest) => (contained depth (.list ds), rest)
    | '\x7b' :: rest =>
      match skipSpace rest with
      | '\x7d' :: rest => some (contained depth (.table []), rest)
      | rest =>
        (fields fuel depth rest).map fun (es, rest) =>
          (contained depth ((es.map .table).getD .unreadable), rest)
    | rest => number false rest

/-- The items of a list up to its bracket. -/
def items (fuel depth : Nat) (cs : List Char) : Option (List Document × List Char) :=
  match fuel with
  | 0 => none
  | fuel + 1 =>
    match value fuel (depth + 1) cs with
    | none => none
    | some (d, rest) =>
      match skipSpace rest with
      | ',' :: rest => (items fuel depth rest).map fun (ds, rest) => (d :: ds, rest)
      | ']' :: rest => some ([d], rest)
      | _ => none

/-- The entries of a table up to its brace; `none` in place of the entries
stands for a key without a value. -/
def fields (fuel depth : Nat) (cs : List Char) :
    Option (Option (List (String × Document)) × List Char) :=
  match fuel with
  | 0 => none
  | fuel + 1 =>
    match skipSpace cs with
    | '\x22' :: rest =>
      match pieces rest with
      | none => none
      | some (ps, rest) =>
        match skipSpace rest with
        | ':' :: rest =>
          match value fuel (depth + 1) rest with
          | none => none
          | some (d, rest) =>
            let entry := (textOf? ps).map fun key => (key, d)
            match skipSpace rest with
            | ',' :: rest =>
              (fields fuel depth rest).map fun (es, rest) =>
                (entry.bind fun e => es.map (e :: ·), rest)
            | '\x7d' :: rest => some (entry.map ([·]), rest)
            | _ => none
        | _ => none
    | _ => none

end

/-- What a text says, if it is JSON from its start to its end. -/
def read? (s : String) : Option Document :=
  let cs := s.toList
  match value (2 * cs.length + 2) 0 cs with
  | some (d, rest) => if (skipSpace rest).isEmpty then some d else none
  | none => none

end NginxConfig.Json
