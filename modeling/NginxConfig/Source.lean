import NginxConfig.Blueprint.Document
import NginxConfig.Files
import NginxConfig.Json.Reader
import NginxConfig.Json.Writer
import NginxConfig.Toml.Reader
import NginxConfig.Toml.Writer

/-!
# Settings and blueprints from texts and files
-/

namespace NginxConfig

/-! ## Reading and writing in a format -/

namespace Format

def read : Format → String → Except DocumentError Document
  | .json => fun s =>
    match Json.read? s with
    | some d => .ok d
    | none => .error .malformed
  | .toml => Toml.read

/-- Whether a text is a document of the format with a value in every part. -/
def isWellFormed (f : Format) (s : String) : Bool :=
  match f.read s with
  | .ok d => d.isReadable
  | .error _ => false

/-- Reads a text and decodes what it says.  A fault counts only in a text that
has a value in every part; any other is malformed. -/
def decode {α : Type} (f : Format) (as : Convention → Document → Except Fault α) (s : String) :
    Except DocumentError α :=
  match f.read s with
  | .error e => .error e
  | .ok d =>
    match as f.convention d with
    | .ok a => .ok a
    | .error fault => .error (if d.isReadable then .fault fault else .malformed)

/-- The text of a document, if the format can write it. -/
def write? : Format → Document → Option String
  | .json => fun d => some (Json.write d)
  | .toml => Toml.write?

end Format

/-! ## What can go wrong -/

/-- Why there is nothing to be had from a text or a file. -/
inductive SourceError where
  /-- The name of the file does not tell its format. -/
  | unknownFormat (path : String)
  | file (e : FileError)
  | document (format : Format) (e : DocumentError)
  deriving Inhabited

namespace SourceError

/-- The message about settings. -/
def settingsMessage : SourceError → String
  | .unknownFormat path =>
    "Configuration error: " ++ path ++ ": expected a .json or .toml settings file"
  | .file e => "IO error: " ++ e.message
  | .document format e => "Configuration error: " ++ format.text ++ ": " ++ e.message format

/-- The message about a blueprint. -/
def blueprintMessage : SourceError → String
  | .unknownFormat path => "Unsupported blueprint format: " ++ path
  | .file e => "IO error: " ++ e.message
  | .document .json e => "JSON parse error: " ++ e.message .json
  | .document .toml e => "TOML parse error: " ++ e.message .toml

end SourceError

/-- Why there is no configuration for a blueprint. -/
inductive BlueprintError where
  | source (e : SourceError)
  | build (e : Error)
  /-- A null, which the format cannot write. -/
  | unwritable
  deriving Inhabited

def BlueprintError.message : BlueprintError → String
  | .source e => e.blueprintMessage
  | .build e => "Build error: " ++ e.message
  | .unwritable => "TOML serialize error: unsupported unit type"

/-! ## Settings -/

namespace Settings

def parse (format : Format) (s : String) : Except SourceError Settings :=
  match format.decode Settings.decode s with
  | .ok settings => .ok settings
  | .error e => .error (.document format e)

/-- Reads settings from a file, whose name tells the format. -/
def load {m : Type → Type} [Monad m] (files : Files m) (path : String) :
    m (Except SourceError Settings) := do
  match Format.ofPath? path with
  | none => return .error (.unknownFormat path)
  | some format =>
    match ← files.readText path with
    | .error e => return .error (.file e)
    | .ok s => return parse format s

end Settings

/-! ## Blueprints -/

namespace Blueprint

def formatOf (path : String) : Except SourceError Format :=
  match Format.ofPath? path with
  | some format => .ok format
  | none => .error (.unknownFormat path)

def parse (format : Format) (s : String) : Except SourceError Blueprint :=
  match format.decode Blueprint.decode s with
  | .ok bp => .ok bp
  | .error e => .error (.document format e)

def serialize (format : Format) (bp : Blueprint) : Except BlueprintError String :=
  match format.write? bp.toDocument with
  | some s => .ok s
  | none => .error .unwritable

/-- Reads a blueprint from a file, whose name tells the format. -/
def load {m : Type → Type} [Monad m] (files : Files m) (path : String) :
    m (Except SourceError Blueprint) := do
  match formatOf path with
  | .error e => return .error e
  | .ok format =>
    match ← files.readText path with
    | .error e => return .error (.file e)
    | .ok s => return parse format s

def build (bp : Blueprint) (id : BuilderId) : Except BlueprintError Builder :=
  match bp.compile id with
  | .ok b => .ok b
  | .error e => .error (.build e)

/-- The builder for a blueprint that was read, or not. -/
def buildFrom (source : Except SourceError Blueprint) (id : BuilderId) :
    Except BlueprintError Builder :=
  match source with
  | .ok bp => bp.build id
  | .error e => .error (.source e)

end Blueprint

end NginxConfig
