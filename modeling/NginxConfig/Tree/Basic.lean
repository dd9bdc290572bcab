import NginxConfig.Error
import NginxConfig.Section

/-!
# The configuration tree

A tree keeps its nodes in slots that are never given up.  Parents are recorded
twice: each node names its parent, and each container lists its sections.  A
node without a parent is the root or has been detached.

The definitions make sense for any array of nodes.  Walks along parents and
sections are bounded by the number of slots, which no walk in a tree built by
the operations of this library can exceed.
-/

namespace NginxConfig

/-- A container in a tree; one without a header is a group. -/
structure Container where
  header : Option String
  options : Options
  sections : List NodeId
  deriving Inhabited

/-- The first word of the header, which is what a plugin looks at. -/
def Container.keyword? (c : Container) : Option String :=
  c.header.bind fun header => (Text.words header).head?

inductive Content where
  | container (c : Container)
  | directive (d : Directive)
  deriving Inhabited

structure Node where
  parent : Option NodeId
  content : Content
  deriving Inhabited

/-- The name that the node can be found by. -/
def Node.name? (n : Node) : Option String :=
  match n.content with
  | .container c => c.header
  | .directive d => d.name?

structure Tree where
  nodes : Array Node
  deriving Inhabited

namespace Tree

/-- A tree of one node: the root, which is a group. -/
def new : Tree :=
  ⟨#[⟨none, .container ⟨none, ∅, []⟩⟩]⟩

def root : NodeId := 0

def size (t : Tree) : Nat :=
  t.nodes.size

def node? (t : Tree) (id : NodeId) : Option Node :=
  t.nodes[id]?

def node (t : Tree) (id : NodeId) : Except Error Node :=
  match t.node? id with
  | some n => .ok n
  | none => .error (.unknownNode id)

def container? (t : Tree) (id : NodeId) : Option Container :=
  match t.node? id with
  | some ⟨_, .container c⟩ => some c
  | _ => none

def container (t : Tree) (id : NodeId) : Except Error Container :=
  match t.node? id with
  | some ⟨_, .container c⟩ => .ok c
  | some ⟨_, .directive _⟩ => .error (.notAContainer id)
  | none => .error (.unknownNode id)

def parent? (t : Tree) (id : NodeId) : Option NodeId :=
  (t.node? id).bind Node.parent

def name? (t : Tree) (id : NodeId) : Option String :=
  (t.node? id).bind Node.name?

/-- The sections of a container; other nodes have none. -/
def sections (t : Tree) (id : NodeId) : List NodeId :=
  ((t.container? id).map Container.sections).getD []

def option? (t : Tree) (id : NodeId) (key : String) : Option Value :=
  (t.container? id).bind (·.options.get? key)

/-- The first section with a name. -/
def find? (t : Tree) (id : NodeId) (name : String) : Option NodeId :=
  (t.sections id).find? fun child => t.name? child == some name

/-- A node, its parent, the parent of that, and so on for some steps. -/
def pathFrom (t : Tree) : Nat → NodeId → List NodeId
  | 0, _ => []
  | steps + 1, id =>
    id :: match t.parent? id with
      | some parent => t.pathFrom steps parent
      | none => []

/-- A node followed by all its ancestors, the nearest first. -/
def path (t : Tree) (id : NodeId) : List NodeId :=
  t.pathFrom (t.size + 1) id

/-- Whether `node` is `ancestor` or lies below it. -/
def isWithin (t : Tree) (ancestor node : NodeId) : Bool :=
  (t.path node).contains ancestor

def isBlock (t : Tree) (id : NodeId) : Bool :=
  ((t.container? id).bind Container.header).isSome

/-- The number of blocks above a node; groups do not nest. -/
def depth (t : Tree) (id : NodeId) : Nat :=
  ((t.path id).drop 1).countP t.isBlock

end Tree

end NginxConfig
