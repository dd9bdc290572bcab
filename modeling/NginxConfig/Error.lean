/-!
# Errors

Each error names its cause; `Error.message` is the only place with wording.
-/

namespace NginxConfig

/-- A node of a tree is known by its slot. -/
abbrev NodeId := Nat

/-- What is wrong with the arguments of an operation. -/
inductive ArgumentFault where
  /-- One argument was given in several of its places. -/
  | repeated (keys : List String)
  | missingPath
  /-- The operation belongs to the builder itself and has a method of its own. -/
  | notDispatched
  | noCurrentScope
  | noLastNode
  /-- A reason of the plugin's own. -/
  | other (reason : String)
  deriving DecidableEq, Repr

def ArgumentFault.message : ArgumentFault → String
  | .repeated keys => "`" ++ "`/`".intercalate keys ++ "` given more than once"
  | .missingPath => "a path is required"
  | .notDispatched => "native operation; call it directly on the builder"
  | .noCurrentScope => "no current scope"
  | .noLastNode => "no last node"
  | .other reason => reason

/-- Why a plugin cannot be registered at all. -/
inductive PluginFault where
  | blankName
  | operationName (operation : String)
  deriving DecidableEq, Repr

def PluginFault.message : PluginFault → String
  | .blankName => "plugin name must not be empty"
  | .operationName operation => "`" ++ operation ++ "` is not a valid operation name"

inductive Error where
  /-- The current scope is none that the plugin may attach under. -/
  | invalidParent (plugin parent : String) (allowed : List String)
  /-- A name is taken already. -/
  | conflict (plugin loaded operation : String)
  | reservedName (plugin : String)
  | invalidPlugin (plugin : String) (fault : PluginFault)
  /-- The plugin belongs to a builder. -/
  | alreadyOwned (plugin : String)
  | noSuchOperation (operation : String) (available : List String)
  | invalidArguments (operation : String) (fault : ArgumentFault)
  /-- The operation did not open a scope. -/
  | notAScope (operation : String)
  | unknownNode (node : NodeId)
  | notAContainer (node : NodeId)
  /-- The move would put a container under itself. -/
  | cycle (node parent : NodeId)
  /-- Operations called one another to a depth that is not followed. -/
  | callDepth (operation : String)
  deriving DecidableEq, Repr

/-- An error that ends a script even inside an attempt. -/
def Error.isFatal : Error → Bool
  | .callDepth _ => true
  | _ => false

def Error.message : Error → String
  | .invalidParent plugin parent allowed =>
    plugin ++ ": `" ++ parent ++ "` is not a valid parent for this plugin. " ++
      "Call this off of one of these: " ++ ", ".intercalate allowed
  | .conflict plugin loaded operation =>
    "Method `" ++ operation ++ "` from `" ++ plugin ++
      "` conflicts with a method of the same name loaded from `" ++ loaded ++ "`"
  | .reservedName plugin =>
    plugin ++ " is a protected name and cannot be used as the name of a plugin"
  | .invalidPlugin plugin fault => plugin ++ ": invalid plugin: " ++ fault.message
  | .alreadyOwned plugin => plugin ++ ": already owned by another config builder"
  | .noSuchOperation operation available =>
    "No plugins provide method " ++ operation ++ "\nExported methods:\n\t" ++
      "\n\t".intercalate available
  | .invalidArguments operation fault => operation ++ ": " ++ fault.message
  | .notAScope operation => operation ++ " does not open a scope"
  | .unknownNode node => "Unknown node: " ++ toString node
  | .notAContainer node => "Node " ++ toString node ++ " is a directive, not a container"
  | .cycle node parent =>
    "Node " ++ toString node ++ " cannot be placed under itself or its descendant " ++
      toString parent
  | .callDepth operation => operation ++ ": operations are nested too deeply"

end NginxConfig
