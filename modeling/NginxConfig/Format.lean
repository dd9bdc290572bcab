/-!
# Document formats

A document is written in one of two formats, which the extension of its file
name tells apart.
-/

namespace NginxConfig

inductive Format where
  | json
  | toml
  deriving DecidableEq, Repr, Inhabited

namespace Format

def text : Format → String
  | .json => "json"
  | .toml => "toml"

/-- ASCII letters in small; all other characters as they are. -/
def smallLetters (s : String) : String :=
  String.ofList (s.toList.map Char.toLower)

/-- The format with a name, in letters of any size. -/
def ofName? (name : String) : Option Format :=
  let name := smallLetters name
  if name = "json" then some .json else if name = "toml" then some .toml else none

/-- The message for a name that is not that of a format. -/
def unsupportedMessage (name : String) : String :=
  "Configuration error: unsupported format `" ++ smallLetters name ++ "`"

/-! ## File names -/

/-- The last component of a path, if it names a file.  Slashes at the end and
components of a single dot do not count, and two dots name no file. -/
def fileName? (path : String) : Option String :=
  let parts := (path.splitOn "/").filter fun part => part ≠ "" ∧ part ≠ "."
  match parts.getLast? with
  | some name => if name = ".." then none else some name
  | none => none

/-- What follows the last dot of a file name; a dot at the very start of the
name does not count. -/
def extension? (path : String) : Option String :=
  (fileName? path).bind fun name =>
    match (name.splitOn ".").reverse with
    | last :: before :: more => if more.isEmpty && before.isEmpty then none else some last
    | _ => none

def ofPath? (path : String) : Option Format :=
  (extension? path).bind ofName?

end Format

end NginxConfig
