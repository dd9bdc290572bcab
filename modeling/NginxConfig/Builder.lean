import NginxConfig.Builder.Dispatch
import NginxConfig.Settings

/-!
# The builder

A builder owns a tree with three sections that are always there, a cursor that
starts at one of them, and the plugins whose operations it runs.
-/

namespace NginxConfig

structure Builder where
  id : BuilderId
  settings : Settings
  state : BuildState
  registry : Registry
  deriving Inhabited

/-- A scope that was entered: where it is, and where the cursor goes back to. -/
structure Scope where
  node : NodeId
  restoreTo : Cursor
  deriving DecidableEq, Repr, Inhabited

namespace Builder

/-- How deep operations may call one another. -/
def callDepth : Nat := 65536

/-- The options that the `http` block starts with. -/
def httpOptions : Options :=
  .ofList [("include", .str "../conf/mime.types")]

def initialState (settings : Settings) : BuildState :=
  let (t, globals) := Tree.new.append Tree.root (.container none settings.globalOptions [])
  let (t, events) := t.append Tree.root (.container (some "events") settings.eventOptions [])
  let (t, http) := t.append Tree.root (.container (some "http") httpOptions [])
  ⟨t, .on http, ⟨globals, events, http⟩⟩

def new (id : BuilderId) (settings : Settings) : Builder :=
  { id, settings
    state := initialState settings
    registry := Plugin.defaults.foldl (fun r p => r.record (.ofBuilder id) p) .empty }

def tree (b : Builder) : Tree := b.state.tree

def roots (b : Builder) : Roots := b.state.roots

/-- The scope at the cursor. -/
def current (b : Builder) : Option NodeId := b.state.cursor.current

def withTree (b : Builder) (tree : Tree) : Builder :=
  { b with state := { b.state with tree } }

def withCursor (b : Builder) (cursor : Cursor) : Builder :=
  { b with state := { b.state with cursor } }

/-- Registers a plugin, and gives it back as owned by this builder. -/
def register (b : Builder) (p : Instance) : Except Error (Builder × Instance) := do
  let (registry, p) ← b.registry.register p b.id nativeOperations
  return ({ b with registry }, p)

/-- Whether an operation is the builder's own or a plugin's. -/
def hasOperation (b : Builder) (operation : String) : Bool :=
  nativeOperations.contains operation || b.registry.contains operation

/-- Runs an operation by name. -/
def call (b : Builder) (operation : String) (args : Args) : Except Error Reply × Builder :=
  let outcome := dispatch b.registry callDepth b.state operation args
  (outcome.result, { b with state := outcome.state })

/-- Runs an operation that opens a scope.  If it answers with anything else,
the cursor goes back. -/
def enter (b : Builder) (operation : String) (args : Args) : Except Error Scope × Builder :=
  match b.call operation args with
  | (.ok (.scope node), after) => (.ok ⟨node, b.state.cursor⟩, after)
  | (.ok _, after) => (.error (.notAScope operation), after.withCursor b.state.cursor)
  | (.error e, after) => (.error e, after)

/-- Closes a scope: the cursor is again where it was before. -/
def leave (b : Builder) (s : Scope) : Builder :=
  b.withCursor s.restoreTo

/-- Moves the cursor to the parent scope. -/
def up (b : Builder) : Builder :=
  { b with state := b.state.ascend }

/-- Points the cursor at a container. -/
def descend (b : Builder) (id : NodeId) : Except Error Builder := do
  let _ ← b.tree.container id
  return { b with state := b.state.descend id }

def setOption (b : Builder) (id : NodeId) (key : String) (value : Value) :
    Except Error Builder := do
  return b.withTree (← b.tree.setOption id key value)

def render (b : Builder) : String :=
  b.tree.render

end Builder

end NginxConfig
