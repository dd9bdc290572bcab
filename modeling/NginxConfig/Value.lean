import NginxConfig.Decimal.Layout
import NginxConfig.Table

/-!
# Option values

A container keeps its options as raw values and turns them into statements
only when it is rendered.
-/

namespace NginxConfig

/-- The value of an option. -/
inductive Value where
  | bool (b : Bool)
  | int (n : Int64)
  | float (x : Float)
  | str (s : String)
  | list (items : List Value)
  | empty
  deriving Inhabited

/-- The options of a container, in the order they were first set. -/
abbrev Options := Table Value

namespace Value

/-- Single spaces between the texts that are not empty. -/
def joinTexts (texts : List String) : String :=
  " ".intercalate (texts.filter (· ≠ ""))

mutual

/-- The text of a value in a statement. -/
def text : Value → String
  | .bool true => "on"
  | .bool false => "off"
  | .int n => toString n.toInt
  | .float x => Decimal.plain.textExactWhole x
  | .str s => s
  | .list items => joinTexts (texts items)
  | .empty => ""

def texts : List Value → List String
  | [] => []
  | v :: vs => v.text :: texts vs

end

mutual

/-- Whether the value leaves its statement without one. -/
def isEmpty : Value → Bool
  | .empty => true
  | .str s => s.isEmpty
  | .list items => allEmpty items
  | _ => false

def allEmpty : List Value → Bool
  | [] => true
  | v :: vs => v.isEmpty && allEmpty vs

end

mutual

/-- Equality in which a number that is not one differs from itself and the two
zeros are the same. -/
def same : Value → Value → Bool
  | .bool a, .bool b => a == b
  | .int a, .int b => a == b
  | .float a, .float b => a == b
  | .str a, .str b => a == b
  | .list a, .list b => sameItems a b
  | .empty, .empty => true
  | _, _ => false

def sameItems : List Value → List Value → Bool
  | [], [] => true
  | a :: as, b :: bs => a.same b && sameItems as bs
  | _, _ => false

end

def str? : Value → Option String
  | .str s => some s
  | _ => none

/-- A count is an integer value as long as it fits in one, and its decimal
text beyond that. -/
def ofCount (n : Nat) : Value :=
  if n < Nat.pow 2 63 then .int (Int64.ofNat n) else .str (toString n)

def ofTexts (texts : List String) : Value :=
  .list (texts.map .str)

def ofText? : Option String → Value
  | some s => .str s
  | none => .empty

theorem texts_eq_map (vs : List Value) : texts vs = vs.map text := by
  induction vs with
  | nil => rfl
  | cons v vs ih => simp [texts, ih]

end Value

/-- Whether two containers have the same options, in any order. -/
def Options.same (a b : Options) : Bool :=
  Table.sameAs Value.same a b

end NginxConfig
