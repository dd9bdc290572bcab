import NginxConfig.Decimal.Reader

/-!
# Documents

A document is what a JSON or TOML text says, before it is understood as
anything in particular.  Tables keep the order of their text and may repeat a
key.
-/

namespace NginxConfig

inductive Document where
  | null
  | bool (b : Bool)
  | int (n : Int)
  | float (x : Float)
  | text (s : String)
  | list (items : List Document)
  | table (entries : List (String × Document))
  /-- A piece of text with the form of a document but without a value: a number
  beyond the range, half of a surrogate pair, or containers nested too deeply.
  It does no harm in a place that nobody looks at. -/
  | unreadable
  deriving Inhabited

namespace Document

mutual

/-- Whether every part of the document has a value. -/
def isReadable : Document → Bool
  | .unreadable => false
  | .list items => allReadable items
  | .table entries => entriesReadable entries
  | _ => true

def allReadable : List Document → Bool
  | [] => true
  | d :: rest => d.isReadable && allReadable rest

def entriesReadable : List (String × Document) → Bool
  | [] => true
  | (_, d) :: rest => d.isReadable && entriesReadable rest

end

end Document

end NginxConfig
