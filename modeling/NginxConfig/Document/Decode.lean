import NginxConfig.Document.Fault
import NginxConfig.Value

/-!
# Documents as option values

Every document is an option value except a table; the kinds of values are told
apart by their form alone.
-/

namespace NginxConfig

/-! ## Single fields -/

namespace Document

def asText : Document → Except Fault String
  | .text s => .ok s
  | d => .error (.wrongKind d "a string")

def asBool : Document → Except Fault Bool
  | .bool b => .ok b
  | d => .error (.wrongKind d "a boolean")

/-- A text, or nothing where there is a null. -/
def asOptionalText : Document → Except Fault (Option String)
  | .null => .ok none
  | d => d.asText.map some

/-- An integer of 32 bits without a sign. -/
def word? (n : Int) : Option UInt32 :=
  if 0 ≤ n ∧ n < Int.pow 2 32 then some (UInt32.ofNat n.toNat) else none

def asWord : Document → Except Fault UInt32
  | .int n =>
    match word? n with
    | some w => .ok w
    | none => .error (.outOfRange n "u32")
  | d => .error (.wrongKind d "u32")

end Document

/-! ## Values -/

/-- The value of an integer of a document.  One that does not fit in 64 bits
with a sign is taken as the nearest floating point number. -/
def Value.ofInt (n : Int) : Value :=
  if -Int.pow 2 63 ≤ n ∧ n < Int.pow 2 63 then .int (Int64.ofInt n)
  else .float (Decimal.nearest (decide (n < 0)) n.natAbs 1)

mutual

def Value.ofDocument? : Document → Option Value
  | .null => some .empty
  | .bool b => some (.bool b)
  | .int n => some (Value.ofInt n)
  | .float x => some (.float x)
  | .text s => some (.str s)
  | .list items => (valuesOf? items).map .list
  | .table _ => none
  | .unreadable => none

def valuesOf? : List Document → Option (List Value)
  | [] => some []
  | d :: rest =>
    match Value.ofDocument? d with
    | none => none
    | some v => (valuesOf? rest).map (v :: ·)

end

mutual

def Value.toDocument : Value → Document
  | .empty => .null
  | .bool b => .bool b
  | .int n => .int n.toInt
  | .float x => .float x
  | .str s => .text s
  | .list items => .list (documentsOf items)

def documentsOf : List Value → List Document
  | [] => []
  | v :: rest => v.toDocument :: documentsOf rest

end

def Value.decode (d : Document) : Except Fault Value :=
  match Value.ofDocument? d with
  | some v => .ok v
  | none => .error (.noVariant "Value")

/-! ## Option tables -/

def Options.decodeEntries : List (String × Document) → Except Fault (List (String × Value))
  | [] => .ok []
  | (key, d) :: rest => do
    let v ← Value.decode d
    return (key, v) :: (← decodeEntries rest)

def Options.decode : Document → Except Fault Options
  | .table entries => (Options.decodeEntries entries).map Table.ofList
  | d => .error (.wrongKind d "a map")

def Options.toDocument (o : Options) : Document :=
  .table (o.entries.map fun p => (p.1, p.2.toDocument))

end NginxConfig
