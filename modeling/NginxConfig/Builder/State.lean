import NginxConfig.Cursor

/-!
# The state of a build

Everything that an operation can change is a tree and a cursor.
-/

namespace NginxConfig

/-- The sections that every built tree has. -/
structure Roots where
  globals : NodeId
  events : NodeId
  http : NodeId
  deriving DecidableEq, Repr, Inhabited

structure BuildState where
  tree : Tree
  cursor : Cursor
  roots : Roots
  deriving Inhabited

namespace BuildState

/-- Points the cursor at a node, whatever it is. -/
def descend (st : BuildState) (id : NodeId) : BuildState :=
  { st with cursor := .on id }

def ascend (st : BuildState) : BuildState :=
  { st with cursor := st.cursor.ascend st.tree }

end BuildState

end NginxConfig
