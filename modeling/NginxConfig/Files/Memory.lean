import NginxConfig.Files

/-!
# Files in memory

A directory that is a value: each path from it has a file or a directory.  The
parents of what is in it are in it too.  Paths go through it one component at
a time.  What lies outside is known only as far as it has been added: the root
of all paths, and one directory above the other.
-/

namespace NginxConfig

inductive FileEntry where
  | file (bytes : ByteArray)
  | directory
  /-- Takes everything and keeps nothing. -/
  | sink
  deriving Inhabited

/-- The entries of a directory by their paths from it.  A path from the root
starts with a slash for its first component. -/
structure Directory where
  entries : List (List String × FileEntry)
  deriving Inhabited

namespace Directory

def empty : Directory := ⟨[]⟩

def rootPath : List String := ["/"]

/-- Whether a path leads to the root, the directory itself or one above it. -/
def isOutset (path : List String) : Bool :=
  path == rootPath || path.all (· == "..")

/-- What is at a path of proper components. -/
def entry? (d : Directory) (path : List String) : Option FileEntry :=
  if isOutset path then some .directory else d.entries.lookup path

def set (d : Directory) (path : List String) (e : FileEntry) : Directory :=
  ⟨(path, e) :: d.entries.filter (·.1 ≠ path)⟩

/-- Puts an entry in its place, with the directories that lead to it. -/
def add (d : Directory) (path : List String) (e : FileEntry) : Directory :=
  let parents := (List.range path.length).tail.map path.take
  let d := parents.foldl (fun d p => if (d.entry? p).isSome then d else d.set p .directory) d
  d.set path e

/-! ## Paths -/

/-- A path taken apart.  Several slashes are as good as one. -/
structure PathParts where
  /-- Where the path starts: here or at the root. -/
  start : List String
  parts : List String
  /-- Whether a slash follows the last component. -/
  slashed : Bool
  deriving Repr, Inhabited

/-- The bytes that a component of a path may have. -/
def nameLimit : Nat := 255

/-- The bytes that a whole path may have. -/
def pathLimit : Nat := 4095

def PathParts.ofPath (path : String) : Except FileError PathParts :=
  let cs := path.toList
  if cs.contains '\x00' then .error .badName
  else if pathLimit < path.utf8ByteSize then .error .nameTooLong
  else if path = "" then .error .notFound
  else .ok
    { start := if cs.head? = some '/' then rootPath else []
      parts := (path.splitOn "/").filter (· ≠ "")
      slashed := cs.getLast? = some '/' }

/-- The directory above a directory; the root is above itself. -/
def above (here : List String) : List String :=
  if here = rootPath then here
  else if here.all (· == "..") then here ++ [".."]
  else here.dropLast

/-- The path after a component, if there is something. -/
def step (d : Directory) (here : List String) (part : String) : Except FileError (List String) :=
  match d.entry? here with
  | none => .error .notFound
  | some .directory =>
    if part = "." then .ok here
    else if part = ".." then .ok (above here)
    else if nameLimit < part.utf8ByteSize then .error .nameTooLong
    else if (d.entry? (here ++ [part])).isSome then .ok (here ++ [part])
    else .error .notFound
  | some _ => .error .notADirectory

/-- Follows components from a path on. -/
def walk (d : Directory) (here : List String) (parts : List String) :
    Except FileError (List String) :=
  parts.foldlM d.step here

/-! ## Reading and writing -/

def read (d : Directory) (path : String) : Except FileError ByteArray := do
  let p ← PathParts.ofPath path
  match d.entry? (← d.walk p.start p.parts) with
  | none => throw .notFound
  | some .directory => throw .isADirectory
  | some entry =>
    if p.slashed then throw .notADirectory
    match entry with
    | .file bytes => return bytes
    | _ => return .empty

/-- Writes a file, which is made if it is not there yet.  A path that ends with
a slash, or with dots, can only be that of a directory, whether there is one or
not. -/
def write (d : Directory) (path content : String) : Except FileError Directory := do
  let p ← PathParts.ofPath path
  match p.parts.getLast? with
  | none => throw .isADirectory
  | some name =>
    if name = "." ∨ name = ".." then
      let _ ← d.walk p.start p.parts
      throw .isADirectory
    let parent ← d.walk p.start p.parts.dropLast
    match d.entry? parent with
    | some .directory =>
      if p.slashed then throw .isADirectory
      if nameLimit < name.utf8ByteSize then throw .nameTooLong
      match d.entry? (parent ++ [name]) with
      | some .directory => throw .isADirectory
      | some .sink => return d
      | some (.file _) | none => return d.set (parent ++ [name]) (.file content.toUTF8)
    | _ => throw .notADirectory

/-- The directory as the state of a run. -/
def files : Files (StateM Directory) where
  read path := return (← get).read path
  write path content := do
    match (← get).write path content with
    | .ok d =>
      MonadStateOf.set d
      return .ok ()
    | .error e => return .error e

end Directory

end NginxConfig
