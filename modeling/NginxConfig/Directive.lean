import NginxConfig.Text.Blank
import NginxConfig.Value

/-!
# Directives

A directive is one statement of a configuration, or a comment.  The value of
an option decides which kind of directive it becomes.
-/

namespace NginxConfig

inductive Directive where
  /-- A statement without a value. -/
  | bare (name : String)
  /-- A statement with one opaque value, which is never cut into words. -/
  | single (name : String) (value : String)
  | multi (name : String) (values : List String)
  /-- A comment line, set off by some text of its own. -/
  | comment (offset : String) (text : String)
  deriving DecidableEq, Repr, Inhabited

namespace Directive

def ofValue (name : String) (value : Value) : Directive :=
  .single name value.text

def ofValues (name : String) (values : List Value) : Directive :=
  .multi name (values.map Value.text)

/-- The directive that a container writes for an option.  A text with blanks in
it stands for several values. -/
def ofOption (name : String) (value : Value) : Directive :=
  if value.isEmpty then .bare name
  else
    match value with
    | .list items => ofValues name items
    | .str s => if Text.hasBlank s then .multi name (Text.words s) else .single name s
    | other => ofValue name other

/-- The name that the directive can be found by. -/
def name? : Directive → Option String
  | .bare name | .single name _ | .multi name _ => some name
  | .comment _ _ => none

/-- The line that the directive writes, without its indentation. -/
def statement : Directive → String
  | .bare name => name ++ ";"
  | .single name value => name ++ " " ++ value ++ ";"
  | .multi name values =>
    match values.filter (· ≠ "") with
    | [] => name ++ ";"
    | values => name ++ " " ++ " ".intercalate values ++ ";"
  | .comment offset text => offset ++ "# " ++ text

end Directive

end NginxConfig
