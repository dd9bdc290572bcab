import NginxConfig.Tree.Basic

/-!
# The text of a tree

Nodes are rendered where they stand, without taking the tree apart into
sections first.
-/

namespace NginxConfig.Tree

/-- The lines of a node and what is below it, to some number of levels. -/
def linesFrom (t : Tree) : Nat → NodeId → Nat → List Line
  | 0, _, _ => []
  | levels + 1, id, depth =>
    match t.node? id with
    | none => []
    | some ⟨_, .directive d⟩ => [⟨depth, d.statement⟩]
    | some ⟨_, .container c⟩ =>
      Line.enclose c.header depth fun inner =>
        Section.optionLines c.options inner ++
          (c.sections.filter (· ≠ id)).flatMap fun child => t.linesFrom levels child inner

/-- The lines of a node, indented from a given depth. -/
def lines (t : Tree) (id : NodeId) (depth : Nat) : List Line :=
  t.linesFrom t.size id depth

/-- The text of a node and what is below it, as if it stood at the outermost
level. -/
def renderNode (t : Tree) (id : NodeId) : Except Error String := do
  let _ ← t.node id
  return Line.renderAll (t.lines id 0)

/-- The text of everything below the root. -/
def render (t : Tree) : String :=
  Line.renderAll (t.lines root 0)

end NginxConfig.Tree
