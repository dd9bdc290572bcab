import NginxConfig.Builder

/-!
# Blueprints

A blueprint describes a whole configuration: settings, extra options of the
global and the `http` scope, and servers with routes nested to any depth.  It
is compiled by entering a scope for each server and each route in turn.
-/

namespace NginxConfig

/-- A location with its options and the locations inside it. -/
inductive Route where
  | mk (path : String) (options : Options) (routes : List Route)
  deriving Inhabited

structure Server where
  /-- Any host, where there is none. -/
  hostname : Option String
  options : Options
  routes : List Route
  deriving Inhabited

structure Blueprint where
  settings : Settings
  globals : Options
  http : Options
  servers : List Server
  deriving Inhabited

namespace Route

def path : Route → String
  | mk path _ _ => path

def options : Route → Options
  | mk _ options _ => options

def routes : Route → List Route
  | mk _ _ routes => routes

mutual

/-- The number of routes in a route, itself included. -/
def count : Route → Nat
  | mk _ _ routes => 1 + countAll routes

def countAll : List Route → Nat
  | [] => 0
  | r :: rest => r.count + countAll rest

end

mutual

/-- Equality up to the order of options. -/
def same : Route → Route → Bool
  | mk p o rs, mk p' o' rs' => p == p' && o.same o' && sameAll rs rs'

def sameAll : List Route → List Route → Bool
  | [], [] => true
  | r :: rs, s :: ss => r.same s && sameAll rs ss
  | _, _ => false

end

mutual

/-- Adds a route at the cursor, with everything inside it. -/
def build (b : Builder) : Route → Except Error Builder
  | mk path options routes => do
    let args := (Args.none.arg (.str path)).withOptions options
    match b.enter "add_route" args with
    | (.error e, _) => throw e
    | (.ok scope, b) => return (← buildAll b routes).leave scope

def buildAll (b : Builder) : List Route → Except Error Builder
  | [] => .ok b
  | r :: rest => do buildAll (← r.build b) rest

end

end Route

namespace Server

/-- The arguments under which a server is added. -/
def args (s : Server) : Args :=
  let args := Args.none.withOptions s.options
  match s.hostname with
  | some hostname => args.arg (.str hostname)
  | none => args

def build (b : Builder) (s : Server) : Except Error Builder :=
  match b.enter "add_server" s.args with
  | (.error e, _) => throw e
  | (.ok scope, b) => do return (← Route.buildAll b s.routes).leave scope

def same (s t : Server) : Bool :=
  s.hostname == t.hostname && s.options.same t.options && Route.sameAll s.routes t.routes

end Server

namespace Blueprint

/-- The blueprint of nothing but the default settings. -/
def empty : Blueprint := ⟨{}, ∅, ∅, []⟩

/-- The number of routes of all servers. -/
def routeCount (bp : Blueprint) : Nat :=
  Route.countAll (bp.servers.flatMap fun s => s.routes)

/-- Sets every option of a table on a node. -/
def overlay (b : Builder) (id : NodeId) (options : Options) : Except Error Builder :=
  options.entries.foldlM (fun b p => b.setOption id p.1 p.2) b

/-- The builder that holds the configuration. -/
def compile (bp : Blueprint) (id : BuilderId) : Except Error Builder := do
  let b := Builder.new id bp.settings
  let b ← overlay b b.roots.globals bp.globals
  let b ← overlay b b.roots.http bp.http
  bp.servers.foldlM Server.build b

def sameServers : List Server → List Server → Bool
  | [], [] => true
  | s :: ss, t :: ts => s.same t && sameServers ss ts
  | _, _ => false

/-- Equality up to the order of options. -/
def same (a b : Blueprint) : Bool :=
  a.settings == b.settings && a.globals.same b.globals && a.http.same b.http &&
    sameServers a.servers b.servers

end Blueprint

end NginxConfig
