import NginxConfig.Plugin

/-!
# The plugin registry

A registry records plugins and the operations they export.  Registration
either passes every check and records the plugin, or changes nothing.
-/

namespace NginxConfig

/-- A recorded plugin, with the facts that held when it was registered. -/
structure Registered where
  id : InstanceId
  plugin : Plugin
  deriving Inhabited

namespace Registered

def name (r : Registered) : String := r.plugin.name

def operations (r : Registered) : List String := r.plugin.operations.keys

def validParents (r : Registered) : List String := r.plugin.validParents

end Registered

structure Registry where
  plugins : Array Registered
  /-- Each operation with the place of its plugin. -/
  methods : Table (Nat × Operation)
  deriving Inhabited

/-- The names that no plugin may have. -/
def reservedNames : List String := ["top"]

/-- The label of the builder itself among the holders of operations. -/
def builderLabel : String := "top"

/-- What a conflict of plugin names, rather than of operations, is about. -/
def nameLabel : String := "name"

/-- An operation is named like an identifier, in ASCII. -/
def isOperationName (name : String) : Bool :=
  match name.toList with
  | [] => false
  | c :: cs => !c.isDigit && (c :: cs).all fun d => d.isAlphanum || d == '_'

namespace Registry

def empty : Registry := ⟨#[], ∅⟩

def size (r : Registry) : Nat := r.plugins.size

def isEmpty (r : Registry) : Bool := r.plugins.isEmpty

/-- The first recorded plugin with a name. -/
def get? (r : Registry) (name : String) : Option Registered :=
  r.plugins.toList.find? fun p => p.name == name

/-- The first recorded plugin that exports an operation. -/
def exporter? (r : Registry) (operation : String) : Option Registered :=
  r.plugins.toList.find? fun p => p.operations.contains operation

def contains (r : Registry) (operation : String) : Bool :=
  r.methods.contains operation

/-- The plugin and the code behind an operation. -/
def lookup? (r : Registry) (operation : String) : Option (Registered × Operation) :=
  (r.methods.get? operation).bind fun (index, code) =>
    r.plugins[index]?.map fun plugin => (plugin, code)

/-- All operations, in the order they were registered. -/
def operationNames (r : Registry) : List String :=
  r.methods.keys

/-! ## Registration -/

def faultOf? (p : Plugin) : Option PluginFault :=
  if Text.allBlank p.name then some .blankName
  else (p.operations.keys.find? (!isOperationName ·)).map .operationName

/-- The conflict that one operation name gives rise to. -/
def operationConflict? (r : Registry) (native : List String) (plugin operation : String) :
    Option Error :=
  match r.exporter? operation with
  | some loaded => some (.conflict plugin loaded.name operation)
  | none =>
    if native.contains operation then some (.conflict plugin builderLabel operation) else none

/-- The first check that an instance does not pass. -/
def rejection? (r : Registry) (p : Instance) (native : List String) : Option Error :=
  let name := p.plugin.name
  match faultOf? p.plugin with
  | some fault => some (.invalidPlugin name fault)
  | none =>
    if reservedNames.contains name then some (.reservedName name)
    else if (r.get? name).isSome then some (.conflict name name nameLabel)
    else
      match p.plugin.operations.keys.findSome? (r.operationConflict? native name) with
      | some e => some e
      | none => if p.owner.isSome then some (.alreadyOwned name) else none

/-- Records a plugin without checks. -/
def record (r : Registry) (id : InstanceId) (p : Plugin) : Registry :=
  { plugins := r.plugins.push ⟨id, p⟩
    methods := r.methods.insertAll (p.operations.entries.map fun (op, code) => (op, (r.size, code))) }

/-- Registers an instance for a builder, and gives it back with its owner. -/
def register (r : Registry) (p : Instance) (owner : BuilderId) (native : List String) :
    Except Error (Registry × Instance) :=
  match r.rejection? p native with
  | some e => .error e
  | none => .ok (r.record p.id p.plugin, { p with owner := some owner })

end Registry

end NginxConfig
