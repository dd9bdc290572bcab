import NginxConfig.Proofs.Tree.Edits

/-!
# Edits in place

An operation of `Tree.Edit` gives a new tree or none. The same operation can be
carried out on one tree that is changed as it goes, where a container is looked
up again each time it is changed. A look-up that failed halfway would leave
behind what was done before it, so that such an operation might fail and change
the tree.

It does not (`run_attach`, `run_detach`, `run_reattach`): in any tree at all,
an operation in place comes out as the one that makes a new tree, and leaves
the tree as it was if it fails. The reason is that containers stay containers
(`Keeps`), so a parent that was found once is found again.
-/

namespace NginxConfig.Tree

/-- A program that changes a tree while it runs, and may fail on the way. What
was changed before a failure stays changed. -/
abbrev InPlace := EStateM Error Tree

namespace InPlace

variable {α β : Type}

/-- Looks at the tree without changing it. -/
def look (f : Tree → Except Error α) : InPlace α := fun t =>
  match f t with
  | .ok a => .ok a t
  | .error e => .error e t

/-- Looks a container up, in order to change its sections. -/
def changeSections (id : NodeId) (f : List NodeId → List NodeId) : InPlace Unit := do
  let _ ← look (·.container id)
  modify (·.modifyContainer id fun c => { c with sections := f c.sections })

/-- Gives slots to a section, which no container lists yet. -/
def insert (parent : NodeId) (s : Section) : InPlace NodeId :=
  modifyGet fun t => ((t.insert parent s).2, (t.insert parent s).1)

def attach (parent : NodeId) (s : Section) : InPlace NodeId := do
  let _ ← look (·.container parent)
  let id ← insert parent s
  changeSections parent (· ++ [id])
  return id

def detach (id : NodeId) : InPlace Unit := do
  match (← look (·.node id)).parent with
  | none => return
  | some parent =>
    changeSections parent (·.filter (· ≠ id))
    modify (·.setParent id none)

def reattach (id parent : NodeId) : InPlace Unit := do
  let _ ← look (·.node id)
  let _ ← look (·.container parent)
  if (← get).isWithin id parent then throw (.cycle id parent)
  detach id
  changeSections parent (· ++ [id])
  modify (·.setParent id (some parent))

/-! ## One step after the other -/

theorem run_bind_of_ok {x : InPlace α} {t t' : Tree} {a : α} (h : x.run t = .ok a t')
    (f : α → InPlace β) : (x >>= f).run t = (f a).run t' := by
  rw [EStateM.run_bind, h]

theorem run_bind_of_error {x : InPlace α} {t t' : Tree} {e : Error} (h : x.run t = .error e t')
    (f : α → InPlace β) : (x >>= f).run t = .error e t' := by
  rw [EStateM.run_bind, h]

theorem run_look_of_ok {f : Tree → Except Error α} {t : Tree} {a : α} (h : f t = .ok a) :
    (look f).run t = .ok a t := by
  simp only [look, EStateM.run, h]

theorem run_look_of_error {f : Tree → Except Error α} {t : Tree} {e : Error}
    (h : f t = .error e) : (look f).run t = .error e t := by
  simp only [look, EStateM.run, h]

/-- A container that is there is changed. -/
theorem run_changeSections {t : Tree} {id : NodeId} (h : t.HasContainer id)
    (f : List NodeId → List NodeId) :
    (changeSections id f).run t =
      .ok () (t.modifyContainer id fun c => { c with sections := f c.sections }) := by
  obtain ⟨c, hc⟩ := h
  rw [changeSections, run_bind_of_ok (run_look_of_ok (container_eq_ok.mpr hc))]
  rfl

/-! ## All at once or not at all -/

/-- How a program comes out that either makes a new tree or leaves the old one
as it was. -/
def atOnce (t : Tree) : Except Error (Tree × α) → EStateM.Result Error Tree α
  | .ok (t', a) => .ok a t'
  | .error e => .error e t

theorem run_attach (t : Tree) (parent : NodeId) (s : Section) :
    (attach parent s).run t = atOnce t (t.attach parent s) := by
  rw [attach, Tree.attach]
  cases hp : t.container parent with
  | error e => exact run_bind_of_error (run_look_of_error hp) _
  | ok c =>
      -- The parent is looked up once more when its sections are in their slots.
      have hparent : (t.insert parent s).1.HasContainer parent := by
        rw [insert_eq]
        exact (Keeps.extend t _).hasContainer ⟨c, container_eq_ok.mp hp⟩
      have hinsert : (insert parent s).run t =
          .ok (t.insert parent s).2 (t.insert parent s).1 := rfl
      rw [run_bind_of_ok (run_look_of_ok hp), run_bind_of_ok hinsert,
        run_bind_of_ok (run_changeSections hparent _)]
      rfl

theorem run_detach (t : Tree) (id : NodeId) :
    (detach id).run t = atOnce t ((t.detach id).map (·, ())) := by
  rw [detach, Tree.detach]
  cases hn : t.node id with
  | error e => exact run_bind_of_error (run_look_of_error hn) _
  | ok n =>
      rw [run_bind_of_ok (run_look_of_ok hn), ok_bind]
      cases n.parent with
      | none => rfl
      | some p =>
          simp only
          cases hp : t.container p with
          | error e =>
              refine run_bind_of_error ?_ _
              exact run_bind_of_error (run_look_of_error hp) _
          | ok c =>
              rw [run_bind_of_ok (run_changeSections ⟨c, container_eq_ok.mp hp⟩ _)]
              rfl

theorem run_reattach (t : Tree) (id parent : NodeId) :
    (reattach id parent).run t = atOnce t ((t.reattach id parent).map (·, ())) := by
  rw [reattach, Tree.reattach]
  cases hn : t.node id with
  | error e => exact run_bind_of_error (run_look_of_error hn) _
  | ok n =>
  rw [run_bind_of_ok (run_look_of_ok hn), ok_bind]
  cases hp : t.container parent with
  | error e => exact run_bind_of_error (run_look_of_error hp) _
  | ok c =>
  rw [run_bind_of_ok (run_look_of_ok hp), ok_bind]
  have hget : (get : InPlace Tree).run t = .ok t t := rfl
  rw [run_bind_of_ok hget]
  cases hw : t.isWithin id parent with
  | true => rfl
  | false =>
  have hdetach := run_detach t id
  simp only [Bool.false_eq_true, if_false]
  cases hd : t.detach id with
  | error e =>
      rw [hd] at hdetach
      exact run_bind_of_error hdetach _
  | ok u =>
      -- The new parent is a container in the tree without the node, too.
      obtain ⟨-, hu⟩ := cut_of_detach hd
      have hparent : u.HasContainer parent := by
        rw [hu]
        exact (Keeps.cut t id).hasContainer ⟨c, container_eq_ok.mp hp⟩
      rw [hd] at hdetach
      rw [run_bind_of_ok hdetach, run_bind_of_ok (run_changeSections hparent _)]
      rfl

end InPlace

end NginxConfig.Tree
