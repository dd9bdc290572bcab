import NginxConfig.Sample
import NginxConfig.Source

/-!
# The command line

Arguments are read into a request, and a request is carried out with whatever
access to files it is given.
-/

namespace NginxConfig.Cli

def version : String := "0.1.0"

def programName : String := "ngxforge"

/-- The blueprint that is meant where none is named. -/
def defaultBlueprint : String := "ngxforge.toml"

def defaultPort : UInt16 := 80

inductive Command where
  | render (blueprint : String) (output settings : Option String)
  | simple (port : UInt16)
  | validate (blueprint : String)
  | version
  deriving DecidableEq, Repr, Inhabited

/-- What the arguments ask for. -/
inductive Request where
  | run (command : Command)
  | help
  | versionLine
  deriving DecidableEq, Repr, Inhabited

/-! ## Arguments -/

/-- A whole number with or without a sign, if it is a port. -/
def portOf? (s : String) : Option UInt16 :=
  let (negative, ds) := Decimal.takeSign s.toList
  let n := Decimal.ofDigits ds
  if ds.isEmpty || !ds.all Char.isDigit then none
  else if n < Nat.pow 2 16 ∧ (negative = false ∨ n = 0) then some (UInt16.ofNat n)
  else none

/-- What the value of an option is. -/
inductive ValueKind where
  | path
  | port
  deriving DecidableEq, Repr

/-- A path is never empty. -/
def ValueKind.accepts (s : String) : ValueKind → Bool
  | .path => s ≠ ""
  | .port => (portOf? s).isSome

/-- The options of a command.  Each has one letter or none, and each that is no
flag takes a value. -/
structure OptionSpec where
  letter : Option Char
  name : String
  value : Option ValueKind
  deriving Repr

def OptionSpec.takesValue (o : OptionSpec) : Bool := o.value.isSome

/-- What a command may be given: options, and at most so many other words. -/
structure CommandSpec where
  options : List OptionSpec
  operands : Nat
  deriving Repr

def verbose : OptionSpec := ⟨some 'v', "verbose", none⟩

def help : OptionSpec := ⟨some 'h', "help", none⟩

def CommandSpec.render : CommandSpec :=
  ⟨[verbose, help, ⟨some 'o', "output", some .path⟩, ⟨some 's', "settings", some .path⟩], 1⟩

def CommandSpec.simple : CommandSpec := ⟨[verbose, help, ⟨none, "port", some .port⟩], 0⟩

def CommandSpec.validate : CommandSpec := ⟨[verbose, help], 1⟩

def CommandSpec.version : CommandSpec := ⟨[verbose, help], 0⟩

/-- What has been given so far. -/
structure Given where
  options : List (String × String)
  operands : List String
  deriving Inhabited

/-- How reading arguments ends early. -/
inductive Stop where
  | misuse
  | help
  deriving DecidableEq, Repr, Inhabited

/-- Takes up an option, which may be given once.  Its value is checked before
anything after it is looked at. -/
def Given.take (g : Given) (o : OptionSpec) (value : String) : Except Stop Given :=
  if o.name = help.name then .error .help
  else if (g.options.lookup o.name).isSome then .error .misuse
  else if !o.value.all (·.accepts value) then .error .misuse
  else .ok { g with options := g.options ++ [(o.name, value)] }

/-- Whether an argument can only be an option. -/
def looksLikeOption (s : String) : Bool :=
  match s.toList with
  | '-' :: _ :: _ => true
  | _ => false

/-- Letters after one dash: flags, and at the end perhaps an option whose value
follows it or is the next argument. -/
def takeLetters (spec : CommandSpec) (g : Given) :
    List Char → Except Stop (Given × Option OptionSpec)
  | [] => .ok (g, none)
  | c :: rest =>
    match spec.options.find? (·.letter == some c) with
    | none => .error .misuse
    | some o =>
      if o.takesValue then
        match rest with
        | [] => .ok (g, some o)
        | '=' :: value => (g.take o (String.ofList value)).map (·, none)
        | value => (g.take o (String.ofList value)).map (·, none)
      else
        match g.take o "" with
        | .ok g => takeLetters spec g rest
        | .error e => .error e

/-- A name after two dashes, perhaps with a value after an equals sign. -/
def takeName (spec : CommandSpec) (g : Given) (cs : List Char) :
    Except Stop (Given × Option OptionSpec) :=
  let name := String.ofList (cs.takeWhile (· ≠ '='))
  match spec.options.find? (·.name == name), cs.dropWhile (· ≠ '=') with
  | none, _ => .error .misuse
  | some o, [] => if o.takesValue then .ok (g, some o) else (g.take o "").map (·, none)
  | some o, _ :: value =>
    if o.takesValue then (g.take o (String.ofList value)).map (·, none) else .error .misuse

/-- Takes up a word that is no option, but a path. -/
def Given.takeOperand (g : Given) (spec : CommandSpec) (word : String) : Except Stop Given :=
  if g.operands.length < spec.operands && ValueKind.path.accepts word then
    .ok { g with operands := g.operands ++ [word] }
  else .error .misuse

/-- Reads the arguments of a command.  `pending` is an option that still needs
its value. -/
def readArguments (spec : CommandSpec) (g : Given) (pending : Option OptionSpec) :
    List String → Except Stop Given
  | [] => if pending.isSome then .error .misuse else .ok g
  | word :: rest =>
    if looksLikeOption word then
      if pending.isSome then .error .misuse
      else if word = "--" then rest.foldlM (fun g w => g.takeOperand spec w) g
      else
        let taken := match word.toList with
          | '-' :: '-' :: cs => takeName spec g cs
          | cs => takeLetters spec g (cs.drop 1)
        match taken with
        | .error e => .error e
        | .ok (g, pending) => readArguments spec g pending rest
    else
      let taken := match pending with
        | some o => g.take o word
        | none => g.takeOperand spec word
      match taken with
      | .error e => .error e
      | .ok g => readArguments spec g none rest

def Given.value? (g : Given) (name : String) : Option String :=
  g.options.lookup name

def Given.blueprint (g : Given) : String :=
  g.operands.headD defaultBlueprint

def Given.port (g : Given) : UInt16 :=
  ((g.value? "port").bind portOf?).getD defaultPort

/-- The commands by name. -/
def commandNames : List String := ["render", "simple", "validate", "version", "help"]

def readCommand (name : String) (args : List String) : Except Stop Request :=
  let start : Given := ⟨[], []⟩
  match name with
  | "render" => do
    let g ← readArguments .render start none args
    return .run (.render g.blueprint (g.value? "output") (g.value? "settings"))
  | "simple" => do
    let g ← readArguments .simple start none args
    return .run (.simple g.port)
  | "validate" => do
    let g ← readArguments .validate start none args
    return .run (.validate g.blueprint)
  | "version" => do
    let _ ← readArguments .version start none args
    return .run .version
  | "help" =>
    if args.all commandNames.contains && args.length ≤ 1 then return .help else throw .misuse
  | _ => throw .misuse

/-- Letters before the command. -/
def readLeading (seen : Bool) : List Char → Except Request (Option Bool)
  | [] => .ok (some seen)
  | 'v' :: rest => if seen then .ok none else readLeading true rest
  | 'h' :: _ => .error .help
  | 'V' :: _ => .error .versionLine
  | _ :: _ => .ok none

/-- Reads all arguments.  What stands before the command concerns every
command. -/
def readRequest (seen : Bool) : List String → Except Stop Request
  | [] => .error .misuse
  | word :: rest =>
    if word = "--verbose" then if seen then .error .misuse else readRequest true rest
    else if word = "--help" then .ok .help
    else if word = "--version" then .ok .versionLine
    else
      match word.toList with
      | '-' :: '-' :: _ => .error .misuse
      | '-' :: c :: cs =>
        match readLeading seen (c :: cs) with
        | .error request => .ok request
        | .ok (some seen) => readRequest seen rest
        | .ok none => .error .misuse
      | _ => readCommand word rest

/-! ## Carrying out -/

/-- Why a command failed. -/
inductive Failure where
  | loading (path : String) (e : SourceError)
  | loadingSettings (path : String) (e : SourceError)
  | compiling (path : String) (e : Error)
  | writing (path : String) (e : FileError)
  | invalid (e : BlueprintError)
  deriving Inhabited

/-- A text whose lines after the first are indented. -/
def indentLines (spaces : String) (s : String) : String :=
  ("\n" ++ spaces).intercalate (s.splitOn "\n")

/-- What failed, and below it one cause after the other. -/
def report (what : String) (causes : List String) : String :=
  let lines := match causes with
    | [cause] => ["    " ++ indentLines "    " cause]
    | causes => causes.mapIdx fun i cause =>
        "    " ++ toString i ++ ": " ++ indentLines "       " cause
  "Error: " ++ what ++ "\n\nCaused by:\n" ++ "\n".intercalate lines ++ "\n"

/-- The causes behind a failure to read, outermost first. -/
def causesOf (message : String) : SourceError → List String
  | .file e => [message, e.message]
  | .document format e => [message, e.message format]
  | .unknownFormat _ => [message]

namespace Failure

def text : Failure → String
  | .loading path e => report ("loading " ++ path) (causesOf e.blueprintMessage e)
  | .loadingSettings path e =>
    report ("loading settings " ++ path)
      (match e with
        | .file _ => causesOf e.settingsMessage e
        | _ => [e.settingsMessage])
  | .compiling path e =>
    report ("compiling " ++ path) [(BlueprintError.build e).message, e.message]
  | .writing path e => report ("writing " ++ path) [e.message]
  | .invalid e => "Blueprint error: " ++ e.message ++ "\n"

/-- Whether the failure is about the content of a document. -/
def isAboutContent : Failure → Bool
  | .loading _ (.document _ _) => true
  | .loadingSettings _ (.document _ _) => true
  | .invalid (.source (.document _ _)) => true
  | _ => false

end Failure

/-- The text of a built configuration, without the line feed that it begins
with. -/
def outputOf (b : Builder) : String :=
  Text.dropLeadingBlank b.render

/-- The settings of a blueprint, or those of a file if one is named. -/
def chooseSettings {m : Type → Type} [Monad m] (files : Files m) (bp : Blueprint) :
    Option String → m (Except Failure Settings)
  | none => return .ok bp.settings
  | some path => do
    match ← Settings.load files path with
    | .ok settings => return .ok settings
    | .error e => return .error (.loadingSettings path e)

/-- The text of a blueprint, with other settings if a file of them is named. -/
def renderBlueprint {m : Type → Type} [Monad m] (files : Files m) (path : String)
    (settings : Option String) : m (Except Failure String) := do
  match ← Blueprint.load files path with
  | .error e => return .error (.loading path e)
  | .ok bp =>
    match ← chooseSettings files bp settings with
    | .error e => return .error e
    | .ok settings =>
      match ({ bp with settings } : Blueprint).compile 1 with
      | .ok b => return .ok (outputOf b)
      | .error e => return .error (.compiling path e)

/-- Carries out a command, and gives what goes to the standard output. -/
def Command.run {m : Type → Type} [Monad m] (files : Files m) (workers : Nat) :
    Command → m (Except Failure String)
  | .render blueprint output settings => do
    match ← renderBlueprint files blueprint settings with
    | .error e => return .error e
    | .ok text =>
      match output with
      | none => return .ok (text ++ "\n")
      | some path =>
        match ← files.write path text with
        | .ok () => return .ok ""
        | .error e => return .error (.writing path e)
  | .simple port =>
    return .ok (Text.dropLeadingBlank (sampleConfiguration workers port).render ++ "\n")
  | .validate path => do
    match Blueprint.buildFrom (← Blueprint.load files path) 1 with
    | .ok _ => return .ok ("Blueprint '" ++ path ++ "' is valid\n")
    | .error e => return .error (.invalid e)
  | .version => return .ok (programName ++ " v" ++ Cli.version ++ "\n")

/-- How a run of the program ends. -/
structure Result where
  status : UInt8
  output : String
  failure : Option Failure
  deriving Inhabited

def usage : String :=
  "Usage: " ++ programName ++ " [-v] <render|simple|validate|version> [arguments]\n"

/-- A run of the program from its arguments on. -/
def run {m : Type → Type} [Monad m] (files : Files m) (workers : Nat) (args : List String) :
    m Result := do
  match readRequest false args with
  | .error .misuse => return ⟨2, "", none⟩
  | .error .help | .ok .help => return ⟨0, usage, none⟩
  | .ok .versionLine => return ⟨0, programName ++ " " ++ version ++ "\n", none⟩
  | .ok (.run command) =>
    match ← command.run files workers with
    | .ok output => return ⟨0, output, none⟩
    | .error failure => return ⟨1, "", some failure⟩

end NginxConfig.Cli
