/-!
# Files

What this library needs of a file system, and how it fails.
-/

namespace NginxConfig

inductive FileError where
  | notFound
  /-- Something on the way to the file is no directory. -/
  | notADirectory
  | isADirectory
  | nameTooLong
  /-- The name has a null character in it. -/
  | badName
  /-- The content is not UTF-8. -/
  | notText
  | other (text : String)
  deriving DecidableEq, Repr, Inhabited

def FileError.message : FileError → String
  | .notFound => "No such file or directory (os error 2)"
  | .notADirectory => "Not a directory (os error 20)"
  | .isADirectory => "Is a directory (os error 21)"
  | .nameTooLong => "File name too long (os error 36)"
  | .badName => "file name contained an unexpected NUL byte"
  | .notText => "stream did not contain valid UTF-8"
  | .other text => text

/-- Access to files by name. -/
structure Files (m : Type → Type) where
  read : String → m (Except FileError ByteArray)
  /-- Makes the file the text and nothing else. -/
  write : String → String → m (Except FileError Unit)

def textOfBytes (bytes : ByteArray) : Except FileError String :=
  match String.fromUTF8? bytes with
  | some s => .ok s
  | none => .error .notText

def Files.readText {m : Type → Type} [Monad m] (files : Files m) (path : String) :
    m (Except FileError String) := do
  return (← files.read path).bind textOfBytes

end NginxConfig
