import NginxConfig.Decimal.Layout
import NginxConfig.Document
import NginxConfig.Format
import NginxConfig.Text.Escaped

/-!
# Faults of documents

What can be wrong with a document that is well-formed, and how it is said.
-/

namespace NginxConfig

inductive Fault where
  /-- The document is of another kind than what stands in its place. -/
  | wrongKind (found : Document) (expected : String)
  | outOfRange (n : Int) (expected : String)
  | unknownField (name : String) (known : List String)
  | duplicateField (name : String)
  | missingField (name : String)
  /-- A list in place of a record lacks an item that the record needs. -/
  | tooShort (length : Nat) (expected : String)
  /-- A list in place of a record has items that the record does not take. -/
  | tooLong
  /-- None of the kinds that the type allows. -/
  | noVariant (type : String)
  | notACount (text : String)
  deriving Inhabited

namespace Fault

/-- Numbers in messages about the two formats. -/
def floatText (format : Format) (x : Float) : String :=
  match format with
  | .json => Decimal.compact.text x
  | .toml => ({ Decimal.pointed with undefined := "NaN" } : Decimal.Layout).text x

/-- A document as messages show it. -/
def describe (format : Format) : Document → String
  | .null => "null"
  | .bool b => "boolean `" ++ toString b ++ "`"
  | .int n => "integer `" ++ toString n ++ "`"
  | .float x => "floating point `" ++ floatText format x ++ "`"
  | .text s => "string " ++ Text.escaped s
  | .list _ => "sequence"
  | .table _ => "map"
  | .unreadable => "nothing"

def quotedAll (names : List String) : String :=
  ", ".intercalate (names.map fun name => "`" ++ name ++ "`")

def message (format : Format) : Fault → String
  | .wrongKind found expected =>
    "invalid type: " ++ describe format found ++ ", expected " ++ expected
  | .outOfRange n expected =>
    "invalid value: " ++ describe format (.int n) ++ ", expected " ++ expected
  | .unknownField name known =>
    "unknown field `" ++ name ++ "`, expected one of " ++ quotedAll known
  | .duplicateField name => "duplicate field `" ++ name ++ "`"
  | .missingField name => "missing field `" ++ name ++ "`"
  | .tooShort length expected =>
    "invalid length " ++ toString length ++ ", expected " ++ expected
  | .tooLong => "trailing characters"
  | .noVariant type => "data did not match any variant of untagged enum " ++ type
  | .notACount text => "expected `auto` or a number, got `" ++ text ++ "`"

end Fault

/-- What decoding takes for granted about the format of the document. -/
structure Convention where
  /-- Whether a list in place of a record may have more items than it takes. -/
  allowsExtra : Bool
  deriving Repr

def Format.convention : Format → Convention
  | .json => ⟨false⟩
  | .toml => ⟨true⟩

/-- What became of a text: it has no meaning as a document of its format, or
one that does not fit. -/
inductive DocumentError where
  | malformed
  /-- Malformed, for want of a key in a place that only a key can begin. -/
  | invalidKey
  | fault (f : Fault)
  deriving Inhabited

def DocumentError.message (format : Format) : DocumentError → String
  | .malformed => "the document is malformed"
  | .invalidKey => "invalid key"
  | .fault f => f.message format

end NginxConfig
