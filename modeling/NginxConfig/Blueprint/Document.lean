import NginxConfig.Blueprint
import NginxConfig.Settings.Document

/-!
# Blueprints as documents

Each record is a table that holds its fields in any order and no others, or a
list of the fields in order.  A field that is missing takes its default; only
the path of a route has none.  The first fault in the order of the text counts.
-/

namespace NginxConfig

/-- What is left over of a list in place of a record. -/
def refuseExtra (convention : Convention) (extra : List Document) : Except Fault Unit :=
  if extra.isEmpty || convention.allowsExtra then .ok () else .error .tooLong

/-- The field with a name may be given once. -/
def giveOnce {α : Type} (name : String) (current : Option α) (d : Except Fault α) :
    Except Fault (Option α) :=
  if current.isSome then .error (.duplicateField name) else d.map some

/-! ## Routes -/

structure RouteDraft where
  path : Option String := none
  options : Option Options := none
  routes : Option (List Route) := none
  deriving Inhabited

namespace Route

def fields : List String := ["path", "options", "routes"]

def recordName : String := "struct RouteBlueprint"

end Route

def RouteDraft.finish (r : RouteDraft) : Except Fault Route :=
  match r.path with
  | none => .error (.missingField "path")
  | some path => .ok (.mk path (r.options.getD ∅) (r.routes.getD []))

namespace Route

mutual

def decode (convention : Convention) : Document → Except Fault Route
  | .table entries => do (← decodeEntries convention {} entries).finish
  | .list items => decodeItems convention items
  | d => .error (.wrongKind d recordName)

def decodeAll (convention : Convention) : Document → Except Fault (List Route)
  | .list items => decodeList convention items
  | d => .error (.wrongKind d "a sequence")

def decodeList (convention : Convention) : List Document → Except Fault (List Route)
  | [] => .ok []
  | d :: rest => do
    let r ← decode convention d
    return r :: (← decodeList convention rest)

def decodeEntries (convention : Convention) (r : RouteDraft) :
    List (String × Document) → Except Fault RouteDraft
  | [] => .ok r
  | (key, d) :: rest => do
    if key = "path" then
      let path ← giveOnce key r.path d.asText
      decodeEntries convention { r with path } rest
    else if key = "options" then
      let options ← giveOnce key r.options (Options.decode d)
      decodeEntries convention { r with options } rest
    else if key = "routes" then
      let routes ← giveOnce key r.routes (decodeAll convention d)
      decodeEntries convention { r with routes } rest
    else throw (.unknownField key fields)

def decodeItems (convention : Convention) : List Document → Except Fault Route
  | [] => .error (.tooShort 0 (recordName ++ " with 3 elements"))
  | [path] => do
    return mk (← path.asText) ∅ []
  | [path, options] => do
    let path ← path.asText
    return mk path (← Options.decode options) []
  | path :: options :: routes :: extra => do
    let path ← path.asText
    let options ← Options.decode options
    let routes ← decodeAll convention routes
    refuseExtra convention extra
    return mk path options routes

end

mutual

def toDocument : Route → Document
  | mk path options routes =>
    .table
      (("path", .text path) ::
        (if options.isEmpty then [] else [("options", options.toDocument)]) ++
        (if routes.isEmpty then [] else [("routes", .list (documentsOf routes))]))

def documentsOf : List Route → List Document
  | [] => []
  | r :: rest => r.toDocument :: documentsOf rest

end

end Route

/-! ## Servers -/

structure ServerDraft where
  hostname : Option (Option String) := none
  options : Option Options := none
  routes : Option (List Route) := none
  deriving Inhabited

def ServerDraft.finish (s : ServerDraft) : Server :=
  ⟨s.hostname.getD none, s.options.getD ∅, s.routes.getD []⟩

namespace Server

def fields : List String := ["hostname", "options", "routes"]

def recordName : String := "struct ServerBlueprint"

/-- Takes up one field. -/
def setField (convention : Convention) (s : ServerDraft) (p : String × Document) :
    Except Fault ServerDraft :=
  let (key, d) := p
  if key = "hostname" then
    (giveOnce key s.hostname d.asOptionalText).map fun hostname => { s with hostname }
  else if key = "options" then
    (giveOnce key s.options (Options.decode d)).map fun options => { s with options }
  else if key = "routes" then
    (giveOnce key s.routes (Route.decodeAll convention d)).map fun routes => { s with routes }
  else .error (.unknownField key fields)

def decode (convention : Convention) : Document → Except Fault Server
  | .table entries => do
    return (← entries.foldlM (setField convention) {}).finish
  | .list items => do
    let draft ← (fields.zip items).foldlM (setField convention) {}
    refuseExtra convention (items.drop fields.length)
    return draft.finish
  | d => .error (.wrongKind d recordName)

def decodeAll (convention : Convention) : Document → Except Fault (List Server)
  | .list items => items.mapM (decode convention)
  | d => .error (.wrongKind d "a sequence")

def toDocument (s : Server) : Document :=
  .table
    ((match s.hostname with
      | some hostname => [("hostname", .text hostname)]
      | none => []) ++
      (if s.options.isEmpty then [] else [("options", s.options.toDocument)]) ++
      (if s.routes.isEmpty then [] else [("routes", .list (Route.documentsOf s.routes))]))

end Server

/-! ## Blueprints -/

structure BlueprintDraft where
  settings : Option Settings := none
  globals : Option Options := none
  http : Option Options := none
  servers : Option (List Server) := none
  deriving Inhabited

def BlueprintDraft.finish (b : BlueprintDraft) : Blueprint :=
  ⟨b.settings.getD {}, b.globals.getD ∅, b.http.getD ∅, b.servers.getD []⟩

namespace Blueprint

def fields : List String := ["settings", "globals", "http", "servers"]

def recordName : String := "struct Blueprint"

/-- Takes up one field. -/
def setField (convention : Convention) (b : BlueprintDraft) (p : String × Document) :
    Except Fault BlueprintDraft :=
  let (key, d) := p
  if key = "settings" then
    (giveOnce key b.settings (Settings.decode convention d)).map fun settings =>
      { b with settings }
  else if key = "globals" then
    (giveOnce key b.globals (Options.decode d)).map fun globals => { b with globals }
  else if key = "http" then
    (giveOnce key b.http (Options.decode d)).map fun http => { b with http }
  else if key = "servers" then
    (giveOnce key b.servers (Server.decodeAll convention d)).map fun servers =>
      { b with servers }
  else .error (.unknownField key fields)

def decode (convention : Convention) : Document → Except Fault Blueprint
  | .table entries => do
    return (← entries.foldlM (setField convention) {}).finish
  | .list items => do
    let draft ← (fields.zip items).foldlM (setField convention) {}
    refuseExtra convention (items.drop fields.length)
    return draft.finish
  | d => .error (.wrongKind d recordName)

def toDocument (bp : Blueprint) : Document :=
  .table
    ([("settings", bp.settings.toDocument)] ++
      (if bp.globals.isEmpty then [] else [("globals", bp.globals.toDocument)]) ++
      (if bp.http.isEmpty then [] else [("http", bp.http.toDocument)]) ++
      (if bp.servers.isEmpty then []
        else [("servers", .list (bp.servers.map Server.toDocument))]))

end Blueprint

end NginxConfig
