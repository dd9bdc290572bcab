import Mathlib.Data.List.Induction
import Mathlib.Data.List.Infix
import NginxConfig.Proofs.Tree.Moves
import NginxConfig.Proofs.Tree.Walks

/-!
# The root and what is above it

No operation on a tree is about the root in particular. What keeps the root from
being put under another node is the check for cycles, and the check holds for as
long as every container is below the root. A container that has been detached is
not, so the root can be moved there, and then it has a parent like any other node.
A tree keeps its root on top exactly if every request to move the root is refused
(`root_on_top`).

A tree is drawn from the root, at the margin, while `depth` counts all blocks
above a node. From the root downwards the two count the same
(`Forest.drawn_iff`), so they agree if there is no block above the root.
-/

namespace NginxConfig

theorem Container.innerDepth_eq (c : Container) (depth : Nat) :
    c.innerDepth depth = depth + if c.header.isSome then 1 else 0 := by
  rw [innerDepth]
  cases c.header <;> rfl

namespace Tree

/-! ## Who gets another parent -/

/-- An edit changes the parent of the node that it moves, and of no other. -/
theorem parent?_edit_of_ne {t : Tree} {e : Edit} {x : NodeId} (hx : x < t.size)
    (hdetach : e ≠ .detach x) (hmove : ∀ parent, e ≠ .reattach x parent) :
    (t.edit e).parent? x = t.parent? x := by
  rcases t.edit_eq_or_makes e with h | h
  · rw [h]
  · generalize t.edit e = t' at h ⊢
    cases h with
    | attach s hp => exact parent?_append_of_lt hx _ s
    | @detach id hid =>
        have hne : x ≠ id := fun heq => hdetach (heq ▸ rfl)
        rw [parent?_cut, if_neg hne]
    | @reattach id parent hid hp hw =>
        have hne : x ≠ id := fun heq => hmove parent (heq ▸ rfl)
        rw [parent?_link (by rwa [size_cut]), if_neg hne, parent?_cut, if_neg hne]
    | setOption id key value => exact parent?_changeOptions t id _ x
    | optionEntry id key default write f => exact parent?_changeOptions t id f x

theorem parent?_edit_detach (t : Tree) (x : NodeId) (hx : t.parent? x = none) :
    (t.edit (.detach x)).parent? x = none := by
  rw [edit]
  cases h : Edit.apply t (.detach x) with
  | error err => exact hx
  | ok t' =>
      obtain ⟨-, rfl⟩ := cut_of_detach h
      rw [parent?_cut, if_pos rfl]

theorem parent?_of_reattach {t t' : Tree} {id parent : NodeId}
    (h : t.reattach id parent = .ok t') : t'.parent? id = some parent := by
  obtain ⟨hid, -, -, rfl⟩ := link_of_reattach h
  rw [parent?_link (by rwa [size_cut]), if_pos rfl]

/-! ## Depths -/

theorem isBlock_of_container {t : Tree} {id : NodeId} {c : Container}
    (h : t.container? id = some c) : t.isBlock id = c.header.isSome := by
  rw [isBlock, h]
  rfl

/-- A block is one more for what is directly below it. -/
theorem Forest.depth_of_parent {t : Tree} (h : t.Forest) {x parent : NodeId} {c : Container}
    (hp : t.parent? x = some parent) (hc : t.container? parent = some c) :
    t.depth x = c.innerDepth (t.depth parent) := by
  rw [c.innerDepth_eq, ← isBlock_of_container hc, depth, depth, h.path_of_parent hp, h.path_eq]
  simp only [List.drop_one, List.tail_cons, List.countP_cons]

/-- The nodes that the drawing of a tree comes to, and how far it indents them. -/
inductive Drawn (t : Tree) : NodeId → Nat → Prop where
  | root : Drawn t root 0
  | under {id child : NodeId} {depth : Nat} {c : Container} (above : Drawn t id depth)
      (slot : t.container? id = some c) (listed : child ∈ c.sections) :
      Drawn t child (c.innerDepth depth)

namespace Forest

theorem depth_of_drawn {t : Tree} (h : t.Forest) {id : NodeId} {depth : Nat}
    (hd : t.Drawn id depth) : t.Within Tree.root id ∧ t.depth id = t.depth Tree.root + depth := by
  induction hd with
  | root => exact ⟨.refl t _, rfl⟩
  | @under id child depth c above slot listed ih =>
      have hp : t.parent? child = some id :=
        h.parent_iff.mpr (sections_of_container? slot ▸ listed)
      refine ⟨.of_parent hp ih.1, ?_⟩
      rw [h.depth_of_parent hp slot, ih.2, c.innerDepth_eq, c.innerDepth_eq, Nat.add_assoc]

theorem exists_drawn {t : Tree} (h : t.Forest) {id : NodeId} (hw : t.Within Tree.root id) :
    ∃ depth, t.Drawn id depth := by
  induction id using h.climb_induction with
  | step id ih =>
      rcases within_iff.mp hw with rfl | ⟨parent, hp, hwp⟩
      · exact ⟨0, .root⟩
      · obtain ⟨depth, hd⟩ := ih parent hp hwp
        obtain ⟨c, hc⟩ := h.hasContainer hp
        have hm : id ∈ c.sections := sections_of_container? hc ▸ h.parent_iff.mp hp
        exact ⟨_, .under hd hc hm⟩

/-- What is below the root is drawn once, as deep as it is below the root. -/
theorem drawn_iff {t : Tree} (h : t.Forest) {id : NodeId} {depth : Nat} :
    t.Drawn id depth ↔ t.Within Tree.root id ∧ t.depth id = t.depth Tree.root + depth := by
  refine ⟨h.depth_of_drawn, fun ⟨hw, hdepth⟩ => ?_⟩
  obtain ⟨depth', hd⟩ := h.exists_drawn hw
  have hsame : depth' = depth := Nat.add_left_cancel ((h.depth_of_drawn hd).2.symm.trans hdepth)
  exact hsame ▸ hd

/-! ## Lines -/

/-- Whatever a node begins with is indented as far as the node is. -/
theorem depth_of_head?_lines {t : Tree} (h : t.Forest) {id : NodeId} (hid : id < t.size)
    (depth : Nat) {l : Line} (hl : l ∈ (t.lines id depth).head?) : l.depth = depth := by
  induction id using h.descend_induction with
  | step id ih =>
      rcases directive_or_container hid with ⟨d, hd⟩ | ⟨⟨header, options, sections⟩, hc⟩
      · rw [h.lines_directive hd] at hl
        cases hl
        rfl
      · rw [h.lines_container hc] at hl
        cases header with
        | some name =>
            cases hl
            rfl
        | none =>
            -- A group begins with its first option, or else with one of its sections.
            simp only [Line.enclose, List.head?_append, Section.optionLines, List.head?_map,
              Option.mem_def, Option.or_eq_some_iff, Option.map_eq_some_iff] at hl
            rcases hl with ⟨p, -, rfl⟩ | ⟨-, hl⟩
            · rfl
            · rw [List.head?_flatMap] at hl
              obtain ⟨child, hm, hl⟩ := List.exists_of_findSome?_eq_some hl
              have hm : child ∈ t.sections id := (sections_of_container? hc).symm ▸ hm
              exact ih child hm (lt_size_of_parent? (h.parent_iff.mpr hm)) hl

theorem lines_infix_of_mem {t : Tree} (h : t.Forest) {id child : NodeId} {c : Container}
    (hc : t.container? id = some c) (hm : child ∈ c.sections) (depth : Nat) :
    t.lines child (c.innerDepth depth) <:+: t.lines id depth := by
  have hrow : t.lines child (c.innerDepth depth) <:+:
      c.sections.flatMap fun child => t.lines child (c.innerDepth depth) := by
    rw [List.flatMap_def]
    exact List.infix_of_mem_flatten (List.mem_map.mpr ⟨child, hm, rfl⟩)
  rw [h.lines_container hc, c.enclose_eq]
  exact hrow.trans ((List.suffix_append _ _).isInfix.trans (List.infix_append _ _ _))

theorem lines_infix_of_drawn {t : Tree} (h : t.Forest) {id : NodeId} {depth : Nat}
    (hd : t.Drawn id depth) : t.lines id depth <:+: t.lines Tree.root 0 := by
  induction hd with
  | root => exact List.infix_rfl
  | under above slot listed ih => exact (h.lines_infix_of_mem slot listed _).trans ih

/-- Where a node is drawn, its text stands in that of the tree. -/
theorem render_of_drawn {t : Tree} (h : t.Forest) {id : NodeId} {depth : Nat}
    (hd : t.Drawn id depth) :
    ∃ before after, t.render = before ++ Line.renderAll (t.lines id depth) ++ after := by
  obtain ⟨before, after, hlines⟩ := h.lines_infix_of_drawn hd
  refine ⟨Line.renderAll before, Line.renderAll after, ?_⟩
  rw [render, ← hlines]
  simp only [Line.renderAll, List.map_append, String.join_append]

end Forest

/-! ## The root -/

theorem root_lt_size (es : List Edit) : root < (Tree.new.run es).size :=
  Nat.lt_of_lt_of_le Nat.zero_lt_one (keeps_run Tree.new es).size_le

/-- While every request to move the root is refused, it stays without a parent. -/
theorem parent?_root_run {es : List Edit}
    (hrefused : ∀ before parent, before ++ [.reattach root parent] <+: es →
      ∃ e, (Tree.new.run before).reattach root parent = .error e) :
    (Tree.new.run es).parent? root = none := by
  induction es using List.reverseRecOn with
  | nil => rfl
  | append_singleton es e ih =>
      have hbefore : (Tree.new.run es).parent? root = none :=
        ih fun before parent hp => hrefused before parent (hp.trans (List.prefix_append es [e]))
      have hlast : Tree.new.run (es ++ [e]) = (Tree.new.run es).edit e := List.foldl_concat _ _ _ _
      rw [hlast]
      by_cases hmove : ∃ parent, e = .reattach root parent
      · obtain ⟨parent, rfl⟩ := hmove
        obtain ⟨err, herr⟩ := hrefused es parent List.prefix_rfl
        rw [edit, Edit.apply, herr]
        exact hbefore
      by_cases hdetach : e = .detach root
      · rw [hdetach]
        exact parent?_edit_detach _ _ hbefore
      · have hother : ∀ parent, e ≠ .reattach root parent := fun parent heq => hmove ⟨parent, heq⟩
        rw [parent?_edit_of_ne (root_lt_size es) hdetach hother]
        exact hbefore

/-- **The root is on top unless it is moved.** It is without a parent all along a
run exactly if every request to move it is refused, and a request is accepted
exactly if the new parent is a container that is not below the root. As long as the root
is without a parent, a cursor that ascends from it is nowhere, and every node
below the root is drawn once, indented as far as it is deep. In any case a node is
drawn as deep as it is below the root. -/
theorem root_on_top (es : List Edit) :
    ((∀ before, before <+: es → (Tree.new.run before).parent? root = none) ↔
        ∀ before parent, before ++ [.reattach root parent] <+: es →
          ∃ e, (Tree.new.run before).reattach root parent = .error e)
      ∧ let t := Tree.new.run es
        (∀ parent, (∃ t', t.reattach root parent = .ok t') ↔
            t.HasContainer parent ∧ ¬ t.Within root parent)
        ∧ (t.parent? root = none →
            (Cursor.on root).ascend t = .nowhere
            ∧ ∀ id, t.Within root id →
                (∀ depth, t.Drawn id depth ↔ depth = t.depth id)
                ∧ (∀ l ∈ (t.lines id (t.depth id)).head?, l.depth = t.depth id)
                ∧ ∃ before after,
                    t.render = before ++ Line.renderAll (t.lines id (t.depth id)) ++ after)
        ∧ ∀ id depth, t.Drawn id depth ↔ t.Within root id ∧ t.depth id = t.depth root + depth := by
  refine ⟨⟨fun hnone before parent hp => ?_, fun hrefused before hb => ?_⟩, ?_⟩
  · cases hr : (Tree.new.run before).reattach root parent with
    | error e => exact ⟨e, rfl⟩
    | ok t' =>
        have hmoved : Tree.new.run (before ++ [.reattach root parent]) = t' := by
          rw [run, List.foldl_concat, ← run, edit, Edit.apply, hr]
        have htop := hnone _ hp
        rw [hmoved, parent?_of_reattach hr] at htop
        cases htop
  · exact parent?_root_run fun b parent hp => hrefused b parent (hp.trans hb)
  · intro t
    have h : t.Forest := forest_run es
    have hroot : root < t.size := root_lt_size es
    refine ⟨fun parent => h.exists_reattach hroot, fun htop => ⟨?_, fun id hw => ?_⟩,
      fun id depth => h.drawn_iff⟩
    · rw [Cursor.ascend, Cursor.on, Option.bind_some, htop, Cursor.nowhere]
    · have hzero : t.depth root = 0 := by
        rw [depth, h.path_eq, htop]
        rfl
      have hdrawn : ∀ depth, t.Drawn id depth ↔ depth = t.depth id := fun depth => by
        rw [h.drawn_iff, hzero, Nat.zero_add, and_iff_right hw, eq_comm]
      have hid : id < t.size := by
        rcases Relation.ReflTransGen.cases_head hw with rfl | ⟨parent, hp, -⟩
        · exact hroot
        · exact lt_size_of_parent? hp
      exact ⟨hdrawn, fun l hl => h.depth_of_head?_lines hid _ hl,
        h.render_of_drawn ((hdrawn _).mpr rfl)⟩

/-! ## A root that is moved -/

/-- A container is detached, and the root is put there, with a block that stayed. -/
def movedRoot : List Edit :=
  [.attach root (.block "a"), .attach root (.block "b"), .detach 1, .reattach root 1]

/-- The root has a parent, a cursor ascends from it, and the block below it is
drawn less deep than it is. -/
theorem not_root_without_parent :
    (Tree.new.run movedRoot).parent? root = some 1
      ∧ (Cursor.on root).ascend (Tree.new.run movedRoot) = .on 1
      ∧ (Tree.new.run movedRoot).Within root 2
      ∧ (Tree.new.run movedRoot).depth 2 = 1
      ∧ (Tree.new.run movedRoot).Drawn 2 0
      ∧ (Tree.new.run movedRoot).render = "\nb \x7b\n\x7d" := by
  have hdrawn : (Tree.new.run movedRoot).Drawn 2 0 :=
    .under (c := ⟨none, ∅, [2]⟩) .root rfl (List.mem_singleton_self 2)
  exact ⟨rfl, rfl, ((forest_run movedRoot).depth_of_drawn hdrawn).1, by decide, hdrawn, by decide⟩

end Tree

end NginxConfig
