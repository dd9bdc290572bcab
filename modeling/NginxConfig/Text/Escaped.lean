import NginxConfig.Text.Printable

/-!
# Texts in messages

A text that a message repeats stands between quotes, and characters that would
not be seen are written as escapes.
-/

namespace NginxConfig.Text

/-- The digits of a number in base 16, in small letters. -/
def hexText (n : Nat) : String :=
  String.ofList (Nat.toDigits 16 n)

def escapedChar (c : Char) : String :=
  match c with
  | '\x00' => "\\0"
  | '\t' => "\\t"
  | '\n' => "\\n"
  | '\r' => "\\r"
  | '\x22' => "\\\""
  | '\\' => "\\\\"
  | c =>
    if isPrintable c then String.ofList [c] else "\\u\x7b" ++ hexText c.toNat ++ "\x7d"

def escaped (s : String) : String :=
  "\"" ++ String.join (s.toList.map escapedChar) ++ "\""

end NginxConfig.Text
