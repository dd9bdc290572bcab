import Mathlib.Logic.Basic
import NginxConfig.Tree.Edit

/-!
# What an edit leaves to be seen

A tree is looked at through `size`, `parent?`, `content?` and `sections`, and
each primitive of `Tree.Edit` is described by what it does to these four. The
rest of the theory never opens the array of nodes: a whole edit is a few
primitives in a row, and a fact about it is a fact about the four views.
-/

namespace NginxConfig

/-- A container with other sections; a directive stays as it is. -/
def Content.withSections (sections : List NodeId) : Content → Content
  | .container c => .container { c with sections }
  | .directive d => .directive d

theorem Content.withSections_comp (sections sections' : List NodeId) :
    withSections sections ∘ withSections sections' = withSections sections := by
  funext content
  cases content <;> rfl

namespace Tree

/-- What stands in a slot, whatever its parent is. -/
def content? (t : Tree) (id : NodeId) : Option Content :=
  (t.node? id).map Node.content

/-- The slot of a container. -/
def HasContainer (t : Tree) (id : NodeId) : Prop :=
  ∃ c, t.container? id = some c

/-! ## The views of one tree -/

theorem content?_eq_some_container {t : Tree} {id : NodeId} {c : Container} :
    t.content? id = some (.container c) ↔ t.container? id = some c := by
  rw [content?, container?]
  cases h : t.node? id with
  | none => simp
  | some n =>
      obtain ⟨p, content⟩ := n
      cases content <;> simp

theorem container?_congr {t t' : Tree} {id : NodeId} (h : t'.content? id = t.content? id) :
    t'.container? id = t.container? id := by
  refine Option.ext fun c => ?_
  rw [← content?_eq_some_container, ← content?_eq_some_container, h]

theorem sections_of_container? {t : Tree} {id : NodeId} {c : Container}
    (h : t.container? id = some c) : t.sections id = c.sections := by
  rw [sections, h]; rfl

theorem sections_of_not_container {t : Tree} {id : NodeId} (h : t.container? id = none) :
    t.sections id = [] := by
  rw [sections, h]; rfl

theorem container?_of_directive {t : Tree} {id : NodeId} {d : Directive}
    (h : t.content? id = some (.directive d)) : t.container? id = none := by
  cases hc : t.container? id with
  | none => rfl
  | some c =>
      rw [content?_eq_some_container.mpr hc] at h
      cases h

theorem sections_of_directive {t : Tree} {id : NodeId} {d : Directive}
    (h : t.content? id = some (.directive d)) : t.sections id = [] :=
  sections_of_not_container (container?_of_directive h)

theorem node?_eq_none {t : Tree} {id : NodeId} : t.node? id = none ↔ t.size ≤ id := by
  rw [node?, size, Array.getElem?_eq_none_iff]

theorem node?_isSome {t : Tree} {id : NodeId} : (∃ n, t.node? id = some n) ↔ id < t.size := by
  rw [← Nat.not_le, ← node?_eq_none]
  exact Option.ne_none_iff_exists'.symm

theorem content?_eq_none {t : Tree} {id : NodeId} : t.content? id = none ↔ t.size ≤ id := by
  rw [content?, Option.map_eq_none_iff, node?_eq_none]

theorem parent?_of_size_le {t : Tree} {id : NodeId} (h : t.size ≤ id) : t.parent? id = none := by
  rw [parent?, node?_eq_none.mpr h]; rfl

theorem lt_size_of_parent? {t : Tree} {id p : NodeId} (h : t.parent? id = some p) :
    id < t.size := by
  refine Nat.lt_of_not_le fun hle => ?_
  rw [parent?_of_size_le hle] at h
  cases h

theorem HasContainer.lt_size {t : Tree} {id : NodeId} (h : t.HasContainer id) :
    id < t.size := by
  obtain ⟨c, hc⟩ := h
  refine Nat.lt_of_not_le fun hle => ?_
  rw [← content?_eq_some_container, content?_eq_none.mpr hle] at hc
  cases hc

/-- Only containers list sections. -/
theorem hasContainer_of_mem_sections {t : Tree} {id child : NodeId}
    (h : child ∈ t.sections id) : t.HasContainer id := by
  cases hc : t.container? id with
  | none => rw [sections_of_not_container hc] at h; cases h
  | some c => exact ⟨c, hc⟩

/-- The node in a slot, from its two views. -/
theorem node?_eq_some {t : Tree} {id : NodeId} {n : Node} :
    t.node? id = some n ↔ t.content? id = some n.content ∧ t.parent? id = n.parent := by
  rw [content?, parent?]
  cases h : t.node? id with
  | none => simp
  | some m =>
      obtain ⟨p, c⟩ := m
      obtain ⟨p', c'⟩ := n
      simp only [Option.some.injEq, Node.mk.injEq, Option.map_some, Option.bind_some]
      exact and_comm

theorem container_eq_ok {t : Tree} {id : NodeId} {c : Container} :
    t.container id = .ok c ↔ t.container? id = some c := by
  rw [container, container?]
  cases h : t.node? id with
  | none => simp
  | some n =>
      obtain ⟨p, content⟩ := n
      cases content <;> simp

theorem node_eq_ok {t : Tree} {id : NodeId} {n : Node} :
    t.node id = .ok n ↔ t.node? id = some n := by
  rw [node]
  cases h : t.node? id <;> simp

theorem node_eq_error {t : Tree} {id : NodeId} {e : Error} :
    t.node id = .error e ↔ t.size ≤ id ∧ e = .unknownNode id := by
  rw [← node?_eq_none, node]
  cases h : t.node? id with
  | none => simp [eq_comm]
  | some n => simp

/-- Why no section can go under a node. -/
inductive Refuses (t : Tree) (id : NodeId) : Error → Prop
  | unknown (h : t.size ≤ id) : t.Refuses id (.unknownNode id)
  | directive {d : Directive} (h : t.content? id = some (.directive d)) :
      t.Refuses id (.notAContainer id)

theorem container_eq_error {t : Tree} {id : NodeId} {e : Error} :
    t.container id = .error e ↔ t.Refuses id e := by
  rw [container]
  constructor
  · intro h
    split at h
    · cases h
    · next p d hn =>
        obtain rfl := Except.error.inj h
        exact .directive (node?_eq_some.mp hn).1
    · next hn =>
        obtain rfl := Except.error.inj h
        exact .unknown (node?_eq_none.mp hn)
  · intro h
    cases h with
    | unknown h => rw [node?_eq_none.mpr h]
    | @directive d h =>
        have hn : t.node? id = some ⟨t.parent? id, .directive d⟩ := node?_eq_some.mpr ⟨h, rfl⟩
        rw [hn]

theorem exists_refuses {t : Tree} {id : NodeId} :
    (∃ e, t.Refuses id e) ↔ ¬ t.HasContainer id := by
  simp only [HasContainer, ← container_eq_error, ← container_eq_ok]
  cases t.container id <;> simp

/-! ## What stands in a slot, apart from its sections -/

/-- The slot holds the same in both trees, apart from the list of sections. -/
def SameSlot (t t' : Tree) (id : NodeId) : Prop :=
  t'.content? id = (t.content? id).map (Content.withSections (t'.sections id))

theorem content?_withSections (t : Tree) (id : NodeId) :
    (t.content? id).map (Content.withSections (t.sections id)) = t.content? id := by
  cases h : t.content? id with
  | none => rfl
  | some content =>
      cases content with
      | directive d => rfl
      | container c =>
          rw [sections_of_container? (content?_eq_some_container.mp h)]
          rfl

theorem sameSlot_of_content? {t t' : Tree} {id : NodeId} (h : t'.content? id = t.content? id) :
    t.SameSlot t' id := by
  rw [SameSlot, ← h, content?_withSections]

theorem SameSlot.trans {t u v : Tree} {id : NodeId} (h : t.SameSlot u id)
    (h' : u.SameSlot v id) : t.SameSlot v id := by
  rw [SameSlot] at h h' ⊢
  rw [h', h, Option.map_map, Content.withSections_comp]

/-- Two trees that share with a third what stands in a slot share it. -/
theorem SameSlot.of_common {t u v : Tree} {id : NodeId} (h : t.SameSlot u id)
    (h' : t.SameSlot v id) : u.SameSlot v id := by
  rw [SameSlot] at h h' ⊢
  rw [h', h, Option.map_map, Content.withSections_comp]

theorem SameSlot.size_le_iff {t t' : Tree} {id : NodeId} (h : t.SameSlot t' id) :
    t'.size ≤ id ↔ t.size ≤ id := by
  rw [← content?_eq_none, ← content?_eq_none, h, Option.map_eq_none_iff]

theorem SameSlot.directive_iff {t t' : Tree} {id : NodeId} (h : t.SameSlot t' id)
    {d : Directive} :
    t'.content? id = some (.directive d) ↔ t.content? id = some (.directive d) := by
  rw [h]
  cases t.content? id with
  | none => rfl
  | some content => cases content <;> simp [Content.withSections]

/-- A slot that holds the same is refused for the same reason. -/
theorem SameSlot.refuses_iff {t t' : Tree} {id : NodeId} (h : t.SameSlot t' id) {e : Error} :
    t'.Refuses id e ↔ t.Refuses id e := by
  constructor
  · intro hr
    cases hr with
    | unknown hle => exact .unknown (h.size_le_iff.mp hle)
    | directive hd => exact .directive (h.directive_iff.mp hd)
  · intro hr
    cases hr with
    | unknown hle => exact .unknown (h.size_le_iff.mpr hle)
    | directive hd => exact .directive (h.directive_iff.mpr hd)

theorem SameSlot.hasContainer_iff {t t' : Tree} {id : NodeId} (h : t.SameSlot t' id) :
    t'.HasContainer id ↔ t.HasContainer id := by
  rw [← not_iff_not, ← exists_refuses, ← exists_refuses]
  exact exists_congr fun _ => h.refuses_iff

/-! ## A new slot -/

@[simp] theorem size_push (t : Tree) (n : Node) : (t.push n).size = t.size + 1 := by
  simp [push, size]

theorem node?_push (t : Tree) (n : Node) (x : NodeId) :
    (t.push n).node? x = if x = t.size then some n else t.node? x := by
  rw [node?, push, Array.getElem?_push]; rfl

theorem parent?_push (t : Tree) (n : Node) (x : NodeId) :
    (t.push n).parent? x = if x = t.size then n.parent else t.parent? x := by
  rw [parent?, node?_push]
  split <;> rfl

theorem content?_push (t : Tree) (n : Node) (x : NodeId) :
    (t.push n).content? x = if x = t.size then some n.content else t.content? x := by
  rw [content?, node?_push]
  split <;> rfl

/-! ## A change of one node -/

theorem node?_modifyNode (t : Tree) (id : NodeId) (f : Node → Node) (x : NodeId) :
    (t.modifyNode id f).node? x = if x = id then (t.node? x).map f else t.node? x := by
  rw [node?, modifyNode, Array.getElem?_modify]
  by_cases h : x = id
  · rw [if_pos h, if_pos h.symm]; rfl
  · rw [if_neg h, if_neg (Ne.symm h)]; rfl

@[simp] theorem size_modifyNode (t : Tree) (id : NodeId) (f : Node → Node) :
    (t.modifyNode id f).size = t.size := by
  simp [modifyNode, size]

@[simp] theorem size_modifyContainer (t : Tree) (id : NodeId) (f : Container → Container) :
    (t.modifyContainer id f).size = t.size := by
  rw [modifyContainer, size_modifyNode]

@[simp] theorem parent?_modifyContainer (t : Tree) (id : NodeId) (f : Container → Container)
    (x : NodeId) : (t.modifyContainer id f).parent? x = t.parent? x := by
  rw [parent?, modifyContainer, node?_modifyNode, parent?]
  split
  · cases h : t.node? x with
    | none => rfl
    | some n =>
        obtain ⟨p, content⟩ := n
        cases content <;> rfl
  · rfl

/-- A change that is meant for containers passes directives by. -/
theorem content?_modifyContainer (t : Tree) (id : NodeId) (f : Container → Container)
    (x : NodeId) :
    (t.modifyContainer id f).content? x =
      match t.content? x with
      | some (.container c) => some (.container (if x = id then f c else c))
      | other => other := by
  rw [content?, modifyContainer, node?_modifyNode, content?]
  cases h : t.node? x with
  | none => split <;> rfl
  | some n =>
      obtain ⟨p, content⟩ := n
      cases content <;> split <;> rfl

theorem content?_modifyContainer_of_ne {t : Tree} {id x : NodeId} (h : x ≠ id)
    (f : Container → Container) : (t.modifyContainer id f).content? x = t.content? x := by
  rw [content?_modifyContainer]
  simp only [if_neg h]
  split <;> simp_all

theorem container?_modifyContainer (t : Tree) (id : NodeId) (f : Container → Container)
    (x : NodeId) :
    (t.modifyContainer id f).container? x =
      (t.container? x).map fun c => if x = id then f c else c := by
  refine Option.ext fun c => ?_
  rw [← content?_eq_some_container, content?_modifyContainer, Option.map_eq_some_iff]
  simp only [← content?_eq_some_container]
  cases h : t.content? x with
  | none => simp
  | some content => cases content <;> simp

theorem sections_modifyContainer (t : Tree) (id : NodeId) (f : Container → Container)
    (x : NodeId) :
    (t.modifyContainer id f).sections x =
      if x = id then ((t.container? x).map fun c => (f c).sections).getD [] else t.sections x := by
  rw [sections, container?_modifyContainer, sections]
  cases t.container? x <;> split <;> rfl

theorem sections_appendSection {t : Tree} {p : NodeId} (h : t.HasContainer p) (id x : NodeId) :
    (t.appendSection p id).sections x =
      if x = p then t.sections x ++ [id] else t.sections x := by
  obtain ⟨c, hc⟩ := h
  rw [appendSection, sections_modifyContainer]
  split
  · next hx => subst hx; rw [sections_of_container? hc, hc]; rfl
  · rfl

theorem sections_removeSection (t : Tree) (p id x : NodeId) :
    (t.removeSection p id).sections x =
      if x = p then (t.sections x).filter (· ≠ id) else t.sections x := by
  rw [removeSection, sections_modifyContainer]
  split
  · rw [sections]
    cases t.container? x <;> rfl
  · rfl

/-- A change of sections is nothing else. -/
theorem sameSlot_modifyContainer (t : Tree) (id : NodeId) (f : List NodeId → List NodeId)
    (x : NodeId) :
    t.SameSlot (t.modifyContainer id fun c => { c with sections := f c.sections }) x := by
  rw [SameSlot, content?_modifyContainer, sections_modifyContainer]
  cases h : t.content? x with
  | none => rfl
  | some content =>
      cases content with
      | directive d => rfl
      | container c =>
          have hc := content?_eq_some_container.mp h
          rw [hc, sections_of_container? hc]
          by_cases hx : x = id
          · simp only [if_pos hx]
            rfl
          · simp only [if_neg hx]
            rfl

theorem sameSlot_appendSection (t : Tree) (p id x : NodeId) :
    t.SameSlot (t.appendSection p id) x :=
  sameSlot_modifyContainer t p (· ++ [id]) x

theorem sameSlot_removeSection (t : Tree) (p id x : NodeId) :
    t.SameSlot (t.removeSection p id) x :=
  sameSlot_modifyContainer t p (·.filter (· ≠ id)) x

/-! ## A change of parent -/

@[simp] theorem size_setParent (t : Tree) (id : NodeId) (p : Option NodeId) :
    (t.setParent id p).size = t.size := by
  rw [setParent, size_modifyNode]

theorem parent?_setParent {t : Tree} {id : NodeId} (h : id < t.size) (p : Option NodeId)
    (x : NodeId) : (t.setParent id p).parent? x = if x = id then p else t.parent? x := by
  rw [parent?, setParent, node?_modifyNode]
  split
  · next hx =>
      subst hx
      obtain ⟨n, hn⟩ := node?_isSome.mpr h
      rw [hn]; rfl
  · rfl

@[simp] theorem content?_setParent (t : Tree) (id : NodeId) (p : Option NodeId) (x : NodeId) :
    (t.setParent id p).content? x = t.content? x := by
  rw [content?, setParent, node?_modifyNode, content?]
  split
  · cases t.node? x <;> rfl
  · rfl

@[simp] theorem container?_setParent (t : Tree) (id : NodeId) (p : Option NodeId) (x : NodeId) :
    (t.setParent id p).container? x = t.container? x :=
  container?_congr (content?_setParent t id p x)

@[simp] theorem sections_setParent (t : Tree) (id : NodeId) (p : Option NodeId) (x : NodeId) :
    (t.setParent id p).sections x = t.sections x := by
  rw [sections, container?_setParent, sections]

theorem sameSlot_setParent (t : Tree) (id : NodeId) (p : Option NodeId) (x : NodeId) :
    t.SameSlot (t.setParent id p) x :=
  sameSlot_of_content? (content?_setParent t id p x)

end Tree

end NginxConfig
