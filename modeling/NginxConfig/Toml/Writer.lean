import NginxConfig.Decimal.Layout
import NginxConfig.Document
import NginxConfig.Text.Hex

/-!
# Writing TOML

A table is written under a header of its own: its values come first, then the
tables in it.  A list of tables becomes a sequence of headers in double
brackets.  A text is written in the first of several forms that needs no
escapes, and in one with escapes if there is none.  There is no way to write
a null.
-/

namespace NginxConfig.Toml

/-! ## Texts -/

/-- The longest run of a character. -/
def longestRun (c : Char) (cs : List Char) : Nat :=
  (cs.foldl (fun (current, longest) d =>
    if d = c then (current + 1, max longest (current + 1)) else (0, longest)) (0, 0)).2

/-- A control that has to be escaped; tabs and line feeds can stand as they
are in some form. -/
def isControl (c : Char) : Bool :=
  c != '\t' && c != '\n' && (c.toNat < 0x20 || c.toNat == 0x7F)

def escapeChar (c : Char) : List Char :=
  match c with
  | '\x08' => ['\\', 'b']
  | '\t' => ['\\', 't']
  | '\n' => ['\\', 'n']
  | '\x0c' => ['\\', 'f']
  | '\r' => ['\\', 'r']
  | '\x22' => ['\\', '\x22']
  | '\\' => ['\\', '\\']
  | _ =>
    if isControl c then ['\\', 'u', '0', '0'] ++ Text.twoDigits Text.capitalDigit c.toNat
    else [c]

/-- The characters of a text between double quotes, of which a run may be so
long; `seen` of them have just been written.  Line feeds stay where `lines`
allows it. -/
def escapeAll (lines : Bool) (run : Nat) (seen : Nat) : List Char → List Char
  | [] => []
  | c :: rest =>
    if c = '\x22' ∧ seen < run then c :: escapeAll lines run (seen + 1) rest
    else if c = '\n' ∧ lines = true then c :: escapeAll lines run 0 rest
    else escapeChar c ++ escapeAll lines run 0 rest

/-- A text on one line between double quotes. -/
def basic (cs : List Char) : List Char :=
  '\x22' :: escapeAll false 0 0 cs ++ ['\x22']

def literal (cs : List Char) : List Char :=
  '\x27' :: cs ++ ['\x27']

/-- A text that has a line feed starts on a line of its own. -/
def firstBreak (cs : List Char) : List Char :=
  if cs.contains '\n' then ['\n'] else []

def basicMany (cs : List Char) : List Char :=
  let quotes := List.replicate 3 '\x22'
  quotes ++ firstBreak cs ++ escapeAll true 2 0 cs ++ quotes

def literalMany (cs : List Char) : List Char :=
  let quotes := List.replicate 3 '\x27'
  quotes ++ firstBreak cs ++ cs ++ quotes

/-- A text in the plainest form that can hold it. -/
def textForm (s : String) : String :=
  let cs := s.toList
  let controls := cs.any isControl
  let backslash := cs.contains '\\'
  let lines := cs.contains '\n'
  let doubles := longestRun '\x22' cs
  let singles := longestRun '\x27' cs
  String.ofList <|
    if !controls && !backslash && !lines && doubles == 0 then basic cs
    else if !controls && !lines && singles == 0 then literal cs
    else if !controls && !backslash && doubles ≤ 2 then basicMany cs
    else if !controls && singles ≤ 2 then literalMany cs
    else if lines then basicMany cs
    else basic cs

def isBare (c : Char) : Bool :=
  c.isAlphanum || c == '-' || c == '_'

/-- A key without quotes if it can do without them.  A key is never on several
lines. -/
def keyForm (s : String) : String :=
  let cs := s.toList
  let controls := cs.any fun c => isControl c || c == '\n'
  String.ofList <|
    if !cs.isEmpty && cs.all isBare then cs
    else if !controls && !cs.contains '\\' && !cs.contains '\x22' then basic cs
    else if !controls && !cs.contains '\x27' then literal cs
    else basic cs

/-! ## Values -/

/-- Items between brackets.  Two or more stand on lines of their own, and a
comma follows each of these. -/
def bracket (items : List String) : String :=
  match items with
  | [] => "[]"
  | [item] => "[" ++ item ++ "]"
  | items => "[" ++ String.join (items.map fun item => "\n    " ++ item ++ ",") ++ "\n]"

/-- Pairs between braces on one line. -/
def brace (pairs : List String) : String :=
  if pairs.isEmpty then "\x7b\x7d" else "\x7b " ++ ", ".intercalate pairs ++ " \x7d"

mutual

/-- A value after its key; a null has no form. -/
def valueForm : Document → Option String
  | .null => none
  | .bool b => some (toString b)
  | .int n => some (toString n)
  | .float x => some (Decimal.pointed.text x)
  | .text s => some (textForm s)
  | .list items => (itemForms items).map bracket
  | .table entries => (pairForms entries).map brace
  | .unreadable => none

def itemForms : List Document → Option (List String)
  | [] => some []
  | d :: rest => do
    let form ← valueForm d
    return form :: (← itemForms rest)

def pairForms : List (String × Document) → Option (List String)
  | [] => some []
  | (key, d) :: rest => do
    let form ← valueForm d
    return (keyForm key ++ " = " ++ form) :: (← pairForms rest)

end

/-! ## Tables -/

def isTable : Document → Bool
  | .table _ => true
  | _ => false

/-- Whether a document is written under headers rather than after its key. -/
def hasHeader : Document → Bool
  | .table _ => true
  | .list items => !items.isEmpty && items.all isTable
  | _ => false

/-- The lines of a table after its header, up to the tables in it. -/
def pairLines : List (String × Document) → Option String
  | [] => some ""
  | (key, d) :: rest => do
    if hasHeader d then pairLines rest
    else
      let form ← valueForm d
      return keyForm key ++ " = " ++ form ++ "\n" ++ (← pairLines rest)

def pathForm (path : List String) : String :=
  ".".intercalate (path.map keyForm)

/-- What is written under one header, or before all headers. -/
structure Block where
  header : Option String
  body : String
  deriving Repr

/-- A header is left out where the table has nothing but tables in it. -/
def tableHeader (path : List String) (entries : List (String × Document)) : Option String :=
  if path.isEmpty || (!entries.isEmpty && entries.all fun p => hasHeader p.2) then none
  else some ("[" ++ pathForm path ++ "]")

def rowHeader (path : List String) : Option String :=
  some ("[[" ++ pathForm path ++ "]]")

mutual

/-- The blocks of a document that has a header. -/
def blocks (path : List String) : Document → Option (List Block)
  | .table entries => do
    let body ← pairLines entries
    return ⟨tableHeader path entries, body⟩ :: (← blocksIn path entries)
  | .list items => rowBlocks path items
  | _ => some []

def rowBlocks (path : List String) : List Document → Option (List Block)
  | [] => some []
  | .table entries :: rest => do
    let body ← pairLines entries
    let inner ← blocksIn path entries
    return ⟨rowHeader path, body⟩ :: inner ++ (← rowBlocks path rest)
  | _ :: rest => rowBlocks path rest

/-- The blocks of the tables in a table. -/
def blocksIn (path : List String) : List (String × Document) → Option (List Block)
  | [] => some []
  | (key, d) :: rest => do
    let first ← if hasHeader d then blocks (path ++ [key]) d else some []
    return first ++ (← blocksIn path rest)

end

/-- An empty line stands before each header but the first of a text. -/
def joinBlocks (started : Bool) : List Block → String
  | [] => ""
  | ⟨none, body⟩ :: rest => body ++ joinBlocks (started || body ≠ "") rest
  | ⟨some header, body⟩ :: rest =>
    (if started then "\n" else "") ++ header ++ "\n" ++ body ++ joinBlocks true rest

/-- The text of a table, unless there is a null in it. -/
def write? (d : Document) : Option String :=
  (blocks [] d).map (joinBlocks false)

end NginxConfig.Toml
