import NginxConfig.Document.Fault
import NginxConfig.Toml.Number
import NginxConfig.Toml.Scan
import NginxConfig.Toml.Tables

/-!
# Reading TOML

The reader takes a whole text or nothing.  First the text is cut into headers
and keys with values, then the tables are built from these.  Where no more can
be cut off, what stands there tells whether a key is missing.
-/

namespace NginxConfig.Toml

/-! ## Values -/

def afterWord? (word : List Char) (cs : List Char) : Option (List Char) :=
  if word.isPrefixOf cs then some (cs.drop word.length) else none

/-- A value that is no container, from its first character on. -/
def scalar? (cs : List Char) : Option (Document × List Char) :=
  match cs with
  | [] => none
  | 't' :: rest => (afterWord? ['r', 'u', 'e'] rest).map (.bool true, ·)
  | 'f' :: rest => (afterWord? ['a', 'l', 's', 'e'] rest).map (.bool false, ·)
  | c :: _ =>
    if c = '\x22' ∨ c = '\x27' then (text? cs).map fun (s, rest) => (.text s, rest)
    else
      match moment? cs with
      | some (text, rest) => some (momentDocument text, rest)
      | none => number? cs

mutual

/-- A value inside `depth` containers. -/
def value (fuel depth : Nat) (cs : List Char) : Option (Document × List Char) :=
  match fuel with
  | 0 => none
  | fuel + 1 =>
    match cs with
    | '[' :: rest =>
      if depthLimit ≤ depth + 1 then none
      else (items fuel (depth + 1) rest).map fun (ds, rest) => (.list ds, rest)
    | '\x7b' :: rest =>
      if depthLimit ≤ depth + 1 then none
      else
        match skipSpace rest with
        | '\x7d' :: rest => some (.table [], rest)
        | rest =>
          (pairs fuel (depth + 1) [] rest).map fun (entries, rest) =>
            (.table (entriesToDocument entries), rest)
    | cs => scalar? cs

/-- The items of a list up to its bracket.  A comma may follow the last one. -/
def items (fuel depth : Nat) (cs : List Char) : Option (List Document × List Char) :=
  match fuel with
  | 0 => none
  | fuel + 1 =>
    match skipLines false cs with
    | none => none
    | some (']' :: rest) => some ([], rest)
    | some cs =>
      match value fuel depth cs with
      | none => none
      | some (d, rest) =>
        match skipLines false rest with
        | some (',' :: rest) => (items fuel depth rest).map fun (ds, rest) => (d :: ds, rest)
        | some (']' :: rest) => some ([d], rest)
        | _ => none

/-- The keys and values of a table in braces, added to those before them. -/
def pairs (fuel depth : Nat) (entries : Entries) (cs : List Char) :
    Option (Entries × List Char) :=
  match fuel with
  | 0 => none
  | fuel + 1 =>
    match keyPath? cs with
    | some (path, '=' :: rest) =>
      match value fuel depth (skipSpace rest) with
      | none => none
      | some (d, rest) =>
        match addValue entries path.tables path.key d, skipSpace rest with
        | some entries, ',' :: rest => pairs fuel depth entries rest
        | some entries, '\x7d' :: rest => some (entries, rest)
        | _, _ => none
    | _ => none

end

/-! ## Statements -/

inductive Statement where
  | table (path : KeyPath)
  | row (path : KeyPath)
  | pair (path : KeyPath) (d : Document)

/-- What stands on a line that is not blank, to the end of the line. -/
def statement? (cs : List Char) : Option (Statement × List Char) :=
  match cs with
  | '[' :: '[' :: rest =>
    (keyPath? rest).bind fun (path, rest) =>
      match rest with
      | ']' :: ']' :: rest => (lineEnd? rest).map (.row path, ·)
      | _ => none
  | '[' :: rest =>
    (keyPath? rest).bind fun (path, rest) =>
      match rest with
      | ']' :: rest => (lineEnd? rest).map (.table path, ·)
      | _ => none
  | cs =>
    (keyPath? cs).bind fun (path, rest) =>
      match rest with
      | '=' :: rest =>
        (value (2 * rest.length + 2) 0 (skipSpace rest)).bind fun (d, rest) =>
          (lineEnd? rest).map (.pair path d, ·)
      | _ => none

/-- The statements that a text starts with, line by line, and the rest of the
text, which starts with none. -/
def statements : Nat → List Char → List Statement × List Char
  | 0, cs => ([], cs)
  | steps + 1, cs =>
    match skipSpace cs with
    | [] => ([], [])
    | c :: rest =>
      if c = '#' ∨ c = '\n' ∨ c = '\r' then
        match lineEnd? (c :: rest) with
        | some rest => statements steps rest
        | none => ([], c :: rest)
      else
        match statement? (c :: rest) with
        | some (s, rest) =>
          let (more, rest) := statements steps rest
          (s :: more, rest)
        | none => ([], c :: rest)

/-- Whether a line that is no statement has something else in the place of its
first key. -/
def lacksKey (cs : List Char) : Bool :=
  let begins := fun (cs : List Char) => (skipSpace cs).head?.any beginsKey
  match cs with
  | '#' :: _ | '\r' :: _ => false
  | '[' :: '[' :: rest => !begins rest
  | '[' :: rest => !begins rest
  | cs => !begins cs

/-! ## Tables -/

/-- The tables so far, and the path that the latest header gave. -/
structure Reading where
  entries : Entries
  opened : List String

def Reading.add (r : Reading) : Statement → Option Reading
  | .table path =>
    (openTable r.entries path.tables path.key).map (⟨·, path.tables ++ [path.key]⟩)
  | .row path =>
    (openRow r.entries path.tables path.key).map (⟨·, path.tables ++ [path.key]⟩)
  | .pair path d =>
    (addValueAt r.entries r.opened path.tables path.key d).map (⟨·, r.opened⟩)

/-- A byte order mark at the start of a text says nothing.  One more is not
skipped. -/
def skipMark : List Char → List Char
  | '\ufeff' :: rest => rest
  | cs => cs

/-- The table that a text says, if it is TOML from its start to its end. -/
def read (s : String) : Except DocumentError Document :=
  let cs := skipMark s.toList
  let (found, rest) := statements (cs.length + 1) cs
  match found.foldlM Reading.add ⟨[], []⟩ with
  | none => .error .malformed
  | some r =>
    if rest.isEmpty then .ok (.table (entriesToDocument r.entries))
    else .error (if lacksKey rest then .invalidKey else .malformed)

end NginxConfig.Toml
