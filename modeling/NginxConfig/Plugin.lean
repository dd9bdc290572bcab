import NginxConfig.Args
import NginxConfig.Section

/-!
# Plugins

A plugin contributes named operations to a builder.  An operation is one of
the two that come with this library, or a script: a finite list of steps that
act on the tree and the cursor through the builder's context.
-/

namespace NginxConfig

/-- A node as a step of a script names it. -/
inductive NodeRef where
  | id (n : NodeId)
  | root
  | globals
  | events
  | top
  /-- The scope at the cursor. -/
  | current
  /-- The node of the latest reply in this run. -/
  | last
  deriving DecidableEq, Repr, Inhabited

/-- Arguments as a step of a script names them. -/
inductive ArgsRef where
  /-- Those that the script itself was given. -/
  | own
  | given (args : Args)
  deriving Inhabited

inductive Step where
  | attach (s : Section)
  /-- Attaches a directive whose value is an argument of the script. -/
  | attachArgument (name : String) (index : Nat) (keys : List String) (default : Value)
  | openScope (s : Section)
  | addRoute (args : ArgsRef)
  | descend (node : NodeRef)
  | ascend
  | call (operation : String) (args : ArgsRef)
  | setOption (node : NodeRef) (key : String) (value : Value)
  | replyNode (node : NodeRef)
  | replyScope (node : NodeRef)
  | replyText (t : String)
  | replyUnit
  /-- Replies with the plugin's name and where the cursor is. -/
  | reportPlace
  /-- Refuses the arguments of the script. -/
  | fail (reason : String)
  /-- Fails with an error of any kind, but not with one that no script can catch. -/
  | raise (e : Error) (catchable : e.isFatal = false)
  /-- Goes on after the step whether it fails or not, and has no reply. -/
  | attempt (step : Step)
  deriving Inhabited

inductive Operation where
  | addServer
  | addRoute
  | script (steps : List Step)
  deriving Inhabited

structure Plugin where
  name : String
  operations : Table Operation
  /-- The keywords of the scopes the plugin may attach under; none means any. -/
  validParents : List String
  deriving Inhabited

namespace Plugin

/-- Opens `server` blocks in the `http` block. -/
def server : Plugin :=
  ⟨"server", .ofList [("add_server", .addServer)], ["http"]⟩

/-- Opens `location` blocks in servers and in one another. -/
def route : Plugin :=
  ⟨"route", .ofList [("add_route", .addRoute)], ["location", "server"]⟩

/-- The plugins every builder starts with. -/
def defaults : List Plugin := [route, server]

end Plugin

/-- A builder is known by a number. -/
abbrev BuilderId := Nat

/-- Which instance of a plugin this is. -/
inductive InstanceId where
  /-- Made together with a builder. -/
  | ofBuilder (owner : BuilderId)
  | pooled (n : Nat)
  deriving DecidableEq, Repr, Inhabited

/-- A plugin together with the builder that it belongs to, which is recorded
once. -/
structure Instance where
  id : InstanceId
  plugin : Plugin
  owner : Option BuilderId
  deriving Inhabited

end NginxConfig
