import NginxConfig.Decimal.Layout
import NginxConfig.Document
import NginxConfig.Text.Hex

/-!
# Writing JSON

Documents are written on one line, or with each item on a line of its own.
-/

namespace NginxConfig.Json

/-- A character of a text in quotes.  Quotes, backslashes and the controls
below the space are escaped. -/
def charText (c : Char) : List Char :=
  match c with
  | '\x22' => ['\\', '\x22']
  | '\\' => ['\\', '\\']
  | '\x08' => ['\\', 'b']
  | '\x0c' => ['\\', 'f']
  | '\n' => ['\\', 'n']
  | '\r' => ['\\', 'r']
  | '\t' => ['\\', 't']
  | _ =>
    if c.toNat < 0x20 then ['\\', 'u', '0', '0'] ++ Text.twoDigits Text.smallDigit c.toNat
    else [c]

def quoted (s : String) : String :=
  "\"" ++ String.ofList (s.toList.flatMap charText) ++ "\""

mutual

/-- Everything on one line, without spaces. -/
def compact : Document → String
  | .null => "null"
  | .bool true => "true"
  | .bool false => "false"
  | .int n => toString n
  | .float x => Decimal.compact.text x
  | .text s => quoted s
  | .list items => "[" ++ ",".intercalate (compactItems items) ++ "]"
  | .table entries => "\x7b" ++ ",".intercalate (compactEntries entries) ++ "\x7d"
  | .unreadable => "null"

def compactItems : List Document → List String
  | [] => []
  | d :: rest => compact d :: compactItems rest

def compactEntries : List (String × Document) → List String
  | [] => []
  | (key, d) :: rest => (quoted key ++ ":" ++ compact d) :: compactEntries rest

end

/-- Spaces for each level of a document on several lines. -/
def step : Nat := 2

def newLine (level : Nat) : String :=
  "\n" ++ String.ofList (List.replicate (step * level) ' ')

/-- Items between brackets, each on a line of its own; nothing between them if
there are none. -/
def spread (opening closing : String) (level : Nat) (items : List String) : String :=
  if items.isEmpty then opening ++ closing
  else
    opening ++ newLine (level + 1) ++ ("," ++ newLine (level + 1)).intercalate items ++
      newLine level ++ closing

mutual

/-- Containers on several lines, indented from a level on. -/
def pretty (level : Nat) : Document → String
  | .list items => spread "[" "]" level (prettyItems (level + 1) items)
  | .table entries => spread "\x7b" "\x7d" level (prettyEntries (level + 1) entries)
  | d => compact d

def prettyItems (level : Nat) : List Document → List String
  | [] => []
  | d :: rest => pretty level d :: prettyItems level rest

def prettyEntries (level : Nat) : List (String × Document) → List String
  | [] => []
  | (key, d) :: rest => (quoted key ++ ": " ++ pretty level d) :: prettyEntries level rest

end

def write (d : Document) : String :=
  pretty 0 d

end NginxConfig.Json
