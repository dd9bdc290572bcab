import NginxConfig.Tree.Basic

/-!
# Editing a tree

Every edit either succeeds with a new tree or names its error, in which case
there is no new tree.  Slots are only ever added.
-/

namespace NginxConfig.Tree

def push (t : Tree) (n : Node) : Tree :=
  ⟨t.nodes.push n⟩

/-- Changes one node, if it is there. -/
def modifyNode (t : Tree) (id : NodeId) (f : Node → Node) : Tree :=
  ⟨t.nodes.modify id f⟩

def modifyContainer (t : Tree) (id : NodeId) (f : Container → Container) : Tree :=
  t.modifyNode id fun n =>
    match n.content with
    | .container c => { n with content := .container (f c) }
    | .directive _ => n

def setSections (t : Tree) (id : NodeId) (sections : List NodeId) : Tree :=
  t.modifyContainer id fun c => { c with sections }

/-- Puts a node at the end of a container's sections. -/
def appendSection (t : Tree) (parent id : NodeId) : Tree :=
  t.modifyContainer parent fun c => { c with sections := c.sections ++ [id] }

def removeSection (t : Tree) (parent id : NodeId) : Tree :=
  t.modifyContainer parent fun c => { c with sections := c.sections.filter (· ≠ id) }

def setParent (t : Tree) (id : NodeId) (parent : Option NodeId) : Tree :=
  t.modifyNode id fun n => { n with parent }

mutual

/-- Gives slots to a section and everything inside it, a container before its
content.  The parent named does not list the new node yet. -/
def insert (t : Tree) (parent : NodeId) : Section → Tree × NodeId
  | .directive d => (t.push ⟨some parent, .directive d⟩, t.size)
  | .container header options sections =>
    let id := t.size
    let opened := t.push ⟨some parent, .container ⟨header, options, []⟩⟩
    let (filled, children) := opened.insertAll id sections
    (filled.setSections id children, id)

def insertAll (t : Tree) (parent : NodeId) : List Section → Tree × List NodeId
  | [] => (t, [])
  | s :: rest =>
    let (t, id) := t.insert parent s
    let (t, ids) := t.insertAll parent rest
    (t, id :: ids)

end

/-- Puts a section under a container. -/
def append (t : Tree) (parent : NodeId) (s : Section) : Tree × NodeId :=
  let (t, id) := t.insert parent s
  (t.appendSection parent id, id)

/-- Moves a section into the tree, as the last one of a container. -/
def attach (t : Tree) (parent : NodeId) (s : Section) : Except Error (Tree × NodeId) := do
  let _ ← t.container parent
  return t.append parent s

/-- Takes a node out of its parent's sections.  It keeps its slot and whatever
is below it. -/
def detach (t : Tree) (id : NodeId) : Except Error Tree := do
  match (← t.node id).parent with
  | none => return t
  | some parent =>
    let _ ← t.container parent
    return (t.removeSection parent id).setParent id none

/-- Moves a node to the end of a container that does not lie below it. -/
def reattach (t : Tree) (id parent : NodeId) : Except Error Tree := do
  let _ ← t.node id
  let _ ← t.container parent
  if t.isWithin id parent then throw (.cycle id parent)
  let t ← t.detach id
  return (t.appendSection parent id).setParent id (some parent)

def setOption (t : Tree) (id : NodeId) (key : String) (value : Value) : Except Error Tree := do
  let _ ← t.container id
  return t.modifyContainer id fun c => { c with options := c.options.insert key value }

/-- The value of an option, which is set to `default` first if it is missing. -/
def optionEntry (t : Tree) (id : NodeId) (key : String) (default : Value) :
    Except Error (Tree × Value) := do
  let c ← t.container id
  match c.options.get? key with
  | some value => return (t, value)
  | none => return (← t.setOption id key default, default)

end NginxConfig.Tree
