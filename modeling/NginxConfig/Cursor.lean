import NginxConfig.Tree.Edit

/-!
# The cursor

The cursor is the scope under which the next section goes.  Going up from the
root leaves it nowhere.
-/

namespace NginxConfig

structure Cursor where
  current : Option NodeId
  deriving DecidableEq, Repr, Inhabited

namespace Cursor

def nowhere : Cursor := ⟨none⟩

def on (id : NodeId) : Cursor := ⟨some id⟩

/-- What error texts call a scope without a header. -/
def anonymousScope : String := "top"

/-- What error texts call a cursor that is nowhere. -/
def noScope : String := "(none)"

/-- Moves to the parent of the current scope. -/
def ascend (c : Cursor) (t : Tree) : Cursor :=
  ⟨c.current.bind t.parent?⟩

/-- Attaches a section under the current scope on behalf of a plugin, if the
keyword of the scope is one of those allowed.  An empty list allows any. -/
def attach (c : Cursor) (t : Tree) (s : Section) (plugin : String) (allowed : List String) :
    Except Error (Tree × NodeId) :=
  match c.current with
  | none => .error (.invalidParent plugin noScope allowed)
  | some id => do
    let scope ← t.container id
    let permitted := allowed.isEmpty || scope.keyword?.any allowed.contains
    if permitted then t.attach id s
    else throw (.invalidParent plugin (scope.keyword?.getD anonymousScope) allowed)

end Cursor

end NginxConfig
