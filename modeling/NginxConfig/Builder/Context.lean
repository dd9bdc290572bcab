import NginxConfig.Builder.State
import NginxConfig.Registry

/-!
# What operations can do

A running operation sees the build through the plugin that owns it: sections
are attached in the plugin's name and checked against its valid parents.
-/

namespace NginxConfig

/-- The plugin in whose name sections are attached. -/
structure Context where
  plugin : String
  allowed : List String
  deriving Inhabited

def Registered.context (r : Registered) : Context :=
  ⟨r.name, r.validParents⟩

namespace Context

/-- Attaches a section at the cursor, which stays where it is. -/
def attach (ctx : Context) (st : BuildState) (s : Section) :
    Except Error (BuildState × NodeId) := do
  let (tree, id) ← st.cursor.attach st.tree s ctx.plugin ctx.allowed
  return ({ st with tree }, id)

/-- Attaches a section at the cursor and goes into it. -/
def openScope (ctx : Context) (st : BuildState) (s : Section) :
    Except Error (BuildState × Reply) := do
  let (st, id) ← ctx.attach st s
  return (st.descend id, .scope id)

/-- The other names of the host name of a server. -/
def hostnameKeys : List String := ["hostname", "name"]

/-- The host name of a server that answers to any. -/
def anyHost : Value := .str "_"

/-- The value of an argument, or a default where it is missing or empty. -/
def argumentOr (args : Args) (operation : String) (keys : List String) (default : Value) :
    Except Error Value := do
  let given ← args.single operation 0 keys
  return (given.filter (!·.isEmpty)).getD default

/-- Opens a server.  Its first option is the host name, and its others are the
named options that do not give the host name. -/
def addServer (ctx : Context) (args : Args) (st : BuildState) :
    Except Error (BuildState × Reply) := do
  let hostname ← argumentOr args "add_server" hostnameKeys anyHost
  let options := (Table.ofList [("server_name", hostname)]).insertAll
    (args.optionsExcept hostnameKeys).entries
  ctx.openScope st (.container (some "server") options [])

/-- The name that the path of a route may be given under. -/
def pathKeys : List String := ["path"]

/-- Opens a location.  Its options are the named options other than the path. -/
def addRoute (ctx : Context) (args : Args) (st : BuildState) :
    Except Error (BuildState × Reply) := do
  let given ← args.single "add_route" 0 pathKeys
  match given.filter (!·.isEmpty) with
  | none => throw (.invalidArguments "add_route" .missingPath)
  | some path =>
    ctx.openScope st
      (.container (some (locationHeader path.text)) (args.optionsExcept pathKeys) [])

end Context

end NginxConfig
