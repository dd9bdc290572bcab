import NginxConfig.Text.Hex

/-!
# Pieces of TOML text

Each function takes a piece off the front of the characters that are left, and
gives `none` where the text is not TOML.
-/

namespace NginxConfig.Toml

def isSpace (c : Char) : Bool :=
  c == ' ' || c == '\t'

def skipSpace (cs : List Char) : List Char :=
  cs.dropWhile isSpace

/-- The characters that stand for themselves on a line: all but the controls
other than the tab. -/
def isPlain (c : Char) : Bool :=
  c == '\t' || (0x20 ≤ c.toNat && c.toNat != 0x7F)

/-- A line feed, or one after a carriage return. -/
def lineBreak? : List Char → Option (List Char)
  | '\n' :: rest => some rest
  | '\r' :: '\n' :: rest => some rest
  | _ => none

/-- The end of a line with nothing on it but space and a comment. -/
def lineEnd? (cs : List Char) : Option (List Char) :=
  let cs := match skipSpace cs with
    | '#' :: rest => rest.dropWhile isPlain
    | cs => cs
  if cs.isEmpty then some [] else lineBreak? cs

/-- Skips space, line breaks and comments.  A comment has to end before the
text does. -/
def skipLines (inComment : Bool) : List Char → Option (List Char)
  | [] => if inComment then none else some []
  | '\n' :: rest => skipLines false rest
  | '\r' :: '\n' :: rest => skipLines false rest
  | c :: rest =>
    if inComment then if isPlain c then skipLines true rest else none
    else if isSpace c then skipLines false rest
    else if c = '#' then skipLines true rest
    else some (c :: rest)

/-! ## Texts -/

/-- The character that a letter after a backslash stands for. -/
def escaped? (c : Char) : Option Char :=
  match c with
  | '\x22' => some '\x22'
  | '\\' => some '\\'
  | 'b' => some '\x08'
  | 'f' => some '\x0c'
  | 'n' => some '\n'
  | 'r' => some '\r'
  | 't' => some '\t'
  | _ => none

/-- An escape after its backslash. -/
def escape? : List Char → Option (Char × List Char)
  | 'u' :: a :: b :: c :: d :: rest =>
    ((Text.hexNumber? [a, b, c, d]).bind Text.scalar?).map (·, rest)
  | 'U' :: a :: b :: c :: d :: e :: f :: g :: h :: rest =>
    ((Text.hexNumber? [a, b, c, d, e, f, g, h]).bind Text.scalar?).map (·, rest)
  | c :: rest => (escaped? c).map (·, rest)
  | [] => none

/-- Puts a character in front of a text that is still being read. -/
def consed (c : Char) (r : Option (List Char × List Char)) : Option (List Char × List Char) :=
  r.map fun (cs, rest) => (c :: cs, rest)

/-- A text in double quotes, after the first of them.  The number of steps
bounds that of characters. -/
def basicText : Nat → List Char → Option (List Char × List Char)
  | 0, _ => none
  | _ + 1, [] => none
  | steps + 1, c :: rest =>
    if c = '\x22' then some ([], rest)
    else if c = '\\' then
      (escape? rest).bind fun (d, rest) => consed d (basicText steps rest)
    else if isPlain c then consed c (basicText steps rest)
    else none

/-- A text in single quotes, after the first of them. -/
def literalText : List Char → Option (List Char × List Char)
  | [] => none
  | c :: rest =>
    if c = '\x27' then some ([], rest)
    else if isPlain c then consed c (literalText rest)
    else none

/-- Space and line breaks. -/
def skipBlankLines : List Char → List Char
  | '\n' :: rest => skipBlankLines rest
  | '\r' :: '\n' :: rest => skipBlankLines rest
  | c :: rest => if isSpace c then skipBlankLines rest else c :: rest
  | [] => []

/-- The end of a text on several lines: three quotes, after at most two that
belong to the text. -/
def closing? (quote : Char) : List Char → Option (List Char × List Char)
  | a :: b :: c :: rest =>
    if a = quote ∧ b = quote ∧ c = quote then
      match rest with
      | d :: e :: rest' =>
        if d = quote then
          if e = quote then some ([quote, quote], rest') else some ([quote], e :: rest')
        else some ([], rest)
      | [d] => if d = quote then some ([quote], []) else some ([], rest)
      | [] => some ([], rest)
    else none
  | _ => none

/-- A text in three double quotes, after the first three and a line break.  A
backslash at the end of a line joins it to the next text. -/
def basicLines : Nat → List Char → Option (List Char × List Char)
  | 0, _ => none
  | _ + 1, [] => none
  | steps + 1, c :: rest =>
    match closing? '\x22' (c :: rest) with
    | some closed => some closed
    | none =>
      if c = '\\' then
        match lineBreak? (skipSpace rest) with
        | some next => basicLines steps (skipBlankLines next)
        | none => (escape? rest).bind fun (d, rest) => consed d (basicLines steps rest)
      else
        match lineBreak? (c :: rest) with
        | some next => consed '\n' (basicLines steps next)
        | none => if isPlain c then consed c (basicLines steps rest) else none

/-- A text in three single quotes, after the first three and a line break. -/
def literalLines : Nat → List Char → Option (List Char × List Char)
  | 0, _ => none
  | _ + 1, [] => none
  | steps + 1, c :: rest =>
    match closing? '\x27' (c :: rest) with
    | some closed => some closed
    | none =>
      match lineBreak? (c :: rest) with
      | some next => consed '\n' (literalLines steps next)
      | none => if isPlain c then consed c (literalLines steps rest) else none

/-- A text of any kind from its first quote on. -/
def text? (cs : List Char) : Option (String × List Char) :=
  let afterBreak := fun (cs : List Char) => (lineBreak? cs).getD cs
  let scanned := match cs with
    | '\x22' :: '\x22' :: '\x22' :: rest => basicLines (rest.length + 1) (afterBreak rest)
    | '\x22' :: rest => basicText (rest.length + 1) rest
    | '\x27' :: '\x27' :: '\x27' :: rest => literalLines (rest.length + 1) (afterBreak rest)
    | '\x27' :: rest => literalText rest
    | _ => none
  scanned.map fun (cs, rest) => (String.ofList cs, rest)

/-! ## Keys -/

def isBareKey (c : Char) : Bool :=
  c.isAlphanum || c == '-' || c == '_'

/-- Whether a key can begin with the character. -/
def beginsKey (c : Char) : Bool :=
  c == '\x22' || c == '\x27' || isBareKey c

def simpleKey? (cs : List Char) : Option (String × List Char) :=
  match cs with
  | '\x22' :: rest =>
    (basicText (rest.length + 1) rest).map fun (key, rest) => (String.ofList key, rest)
  | '\x27' :: rest =>
    (literalText rest).map fun (key, rest) => (String.ofList key, rest)
  | cs =>
    match cs.takeWhile isBareKey with
    | [] => none
    | key => some (String.ofList key, cs.dropWhile isBareKey)

/-- Keys with points between them, and the space around each of them. -/
def keys? : Nat → List Char → Option (List String × List Char)
  | 0, _ => none
  | steps + 1, cs =>
    (simpleKey? (skipSpace cs)).bind fun (key, rest) =>
      match skipSpace rest with
      | '.' :: rest => (keys? steps rest).map fun (more, rest) => (key :: more, rest)
      | rest => some ([key], rest)

/-- How many keys may be joined, and how many containers may lie in one
another, with one to spare. -/
def depthLimit : Nat := 80

/-- A path of keys, which leads to the last of them. -/
structure KeyPath where
  tables : List String
  key : String
  deriving Repr

def keyPath? (cs : List Char) : Option (KeyPath × List Char) :=
  (keys? (cs.length + 1) cs).bind fun (keys, rest) =>
    if depthLimit ≤ keys.length then none
    else keys.getLast?.map fun key => (⟨keys.dropLast, key⟩, rest)

end NginxConfig.Toml
