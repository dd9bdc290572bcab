/-!
# Lines

Rendered text is a list of lines.  Each begins with a line feed and its
indentation; a statement may bring line feeds of its own, so one `Line` can
take up more than one row.
-/

namespace NginxConfig

/-- Spaces for each level of nesting. -/
def indentWidth : Nat := 4

def indentChar : Char := ' '

def indent (depth : Nat) : String :=
  String.ofList (List.replicate (indentWidth * depth) indentChar)

/-- A piece of text at a level of nesting. -/
structure Line where
  depth : Nat
  text : String
  deriving DecidableEq, Repr

namespace Line

def render (l : Line) : String :=
  "\n" ++ indent l.depth ++ l.text

/-- The text of several lines, one after the other. -/
def renderAll (ls : List Line) : String :=
  String.join (ls.map render)

/-- The line that opens a block. -/
def opening (depth : Nat) (header : String) : Line :=
  ⟨depth, header ++ " \x7b"⟩

def closing (depth : Nat) : Line :=
  ⟨depth, "\x7d"⟩

/-- Puts the lines of a container around its content.  A block indents the
content by one level; a group leaves it at its own. -/
def enclose (header : Option String) (depth : Nat) (content : Nat → List Line) : List Line :=
  match header with
  | some name => opening depth name :: content (depth + 1) ++ [closing depth]
  | none => content depth

end Line

end NginxConfig
