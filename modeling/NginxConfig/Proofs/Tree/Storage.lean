import Mathlib.Data.List.Range
import NginxConfig.Proofs.Tree.InPlace
import NginxConfig.Proofs.Tree.ReadBack
import NginxConfig.Proofs.Tree.Walks

/-!
# What an attachment stores

An attachment hands out slots while it walks the section, and a container gets
its list only when everything inside has been stored. `Received` says what the
tree is like when all this is over: where the parts of the section are, what is
read back from the new node, who its parent is, and what has become of the rest
of the tree.

The new slots are described by their contents (`Stores`), of which the layout of
the section is the list. From it come both what is read back from each new slot
(`holdsAll_preorder`) and the order in which a walk down from the new node
enters them (`renders_of_stores`).
-/

namespace NginxConfig

namespace Section

/-! ## The parts of a section -/

mutual

/-- The section and whatever is inside it, a container before its content. -/
def preorder : Section → List Section
  | .directive d => [.directive d]
  | .container header options sections =>
    .container header options sections :: preorderOfAll sections

def preorderOfAll : List Section → List Section
  | [] => []
  | s :: rest => s.preorder ++ preorderOfAll rest

end

mutual

@[simp] theorem length_preorder : ∀ s : Section, s.preorder.length = s.slots
  | .directive _ => rfl
  | .container _ _ sections => by
      rw [preorder, List.length_cons, length_preorderOfAll sections, slots, Nat.add_comm]

@[simp] theorem length_preorderOfAll :
    ∀ sections : List Section, (preorderOfAll sections).length = slotsOfAll sections
  | [] => rfl
  | s :: rest => by
      rw [preorderOfAll, List.length_append, length_preorder s, length_preorderOfAll rest,
        slotsOfAll]

end

theorem le_of_mem_starts {x : NodeId} :
    ∀ {sections : List Section} {base : NodeId}, x ∈ starts base sections → base ≤ x
  | [], _, h => by cases h
  | s :: rest, base, h => by
      rw [starts, List.mem_cons] at h
      rcases h with rfl | h
      · exact Nat.le_refl _
      · exact Nat.le_trans (Nat.le_add_right _ _) (le_of_mem_starts h)

end Section

namespace Tree

open Section

/-! ## The new slots -/

theorem HoldsAll.append {t : Tree} {ids' : List NodeId} {ss' : List Section}
    (h' : t.HoldsAll ids' ss') :
    ∀ {ids : List NodeId} {ss : List Section}, t.HoldsAll ids ss →
      t.HoldsAll (ids ++ ids') (ss ++ ss')
  | [], [], _ => h'
  | _ :: _, _ :: _, h => by
      obtain ⟨hs, hrest⟩ := holdsAll_cons.mp h
      exact holdsAll_cons.mpr ⟨hs, h'.append hrest⟩

mutual

/-- The slots of a section hold its parts in their order. -/
theorem holdsAll_preorder {t : Tree} {parent : NodeId} :
    ∀ {s : Section} {base : NodeId}, t.Stores base (s.layout parent base) →
      t.HoldsAll (List.range' base s.slots) s.preorder
  | .directive _, _, h => holdsAll_cons.mpr ⟨holds_of_stores h, trivial⟩
  | .container _ _ sections, base, h => by
      have htail : t.HoldsAll (List.range' (base + 1) (slotsOfAll sections))
          (preorderOfAll sections) := holdsAll_preorderOfAll h.tail
      rw [slots, Nat.add_comm, List.range'_succ, preorder]
      exact holdsAll_cons.mpr ⟨holds_of_stores h, htail⟩

theorem holdsAll_preorderOfAll {t : Tree} {parent : NodeId} :
    ∀ {ss : List Section} {base : NodeId}, t.Stores base (layoutOfAll parent base ss) →
      t.HoldsAll (List.range' base (slotsOfAll ss)) (preorderOfAll ss)
  | [], _, _ => trivial
  | s :: rest, base, h => by
      rw [layoutOfAll] at h
      have hrest := h.right
      rw [length_layout] at hrest
      rw [slotsOfAll, preorderOfAll, ← List.range'_append_1]
      exact (holdsAll_preorderOfAll hrest).append (holdsAll_preorder h.left)

end

mutual

/-- A walk that starts with a stored section enters its slots in a row. -/
theorem renders_of_stores {t : Tree} {parent : NodeId} :
    ∀ {s : Section} {base : NodeId}, t.Stores base (s.layout parent base) →
      ∀ {rest visited : List NodeId} {depth : Nat} {lines : List Line},
        t.Renders rest depth visited lines →
        t.Renders (base :: rest) depth (List.range' base s.slots ++ visited)
          (s.lines depth ++ lines)
  | .directive _, _, h, _, _, _, _, hr => by
      rw [Section.lines]
      exact .directive (node?_of_directive h.head) hr
  | .container header options sections, base, h, _, _, depth, _, hr => by
      have hc := node?_of_container (content?_eq_some_container.mp h.head)
      -- What is inside comes behind the container, which therefore is not in its own list.
      have hself : (starts (base + 1) sections).filter (· ≠ base) = starts (base + 1) sections :=
        List.filter_eq_self.mpr fun x hx => by
          have hle : base + 1 ≤ x := le_of_mem_starts hx
          simpa using Nat.ne_of_gt hle
      have hlines : (Section.container header options sections).lines depth =
          Line.enclose header depth fun inner => optionLines options inner ++
            linesOfAll sections
              (Container.innerDepth ⟨header, options, starts (base + 1) sections⟩ depth) := by
        rw [Section.lines]
        exact enclose_congr (c := ⟨header, options, starts (base + 1) sections⟩) rfl
      rw [slots, Nat.add_comm, List.range'_succ, hlines]
      refine .container hc ?_ hr
      simp only [hself]
      exact renders_of_storesAll h.tail

theorem renders_of_storesAll {t : Tree} {parent : NodeId} :
    ∀ {ss : List Section} {base : NodeId}, t.Stores base (layoutOfAll parent base ss) →
      ∀ {depth : Nat}, t.Renders (starts base ss) depth (List.range' base (slotsOfAll ss))
        (linesOfAll ss depth)
  | [], _, _, _ => .done
  | s :: rest, base, h, _ => by
      rw [layoutOfAll] at h
      have hrest := h.right
      rw [length_layout] at hrest
      rw [slotsOfAll, linesOfAll, ← List.range'_append_1]
      exact renders_of_stores h.left (renders_of_storesAll hrest)

end

/-! ## The whole tree -/

/-- What has become of a tree that got a section under one of its containers.
The new node is in the first slot that was free. -/
structure Received (t t' : Tree) (parent : NodeId) (s : Section) : Prop where
  size_eq : t'.size = t.size + s.preorder.length
  /-- The parts of the section are in the new slots, in pre-order. -/
  parts : t'.HoldsAll (List.range' t.size s.preorder.length) s.preorder
  /-- A walk down from the new node enters these slots in this order. -/
  walk : ∀ depth,
    t'.Renders [t.size] depth (List.range' t.size s.preorder.length) (s.lines depth)
  holds_iff : ∀ s', t'.Holds t.size s' ↔ s' = s
  parent?_new : t'.parent? t.size = some parent
  parent_iff : ∀ child q, t'.parent? child = some q ↔ child ∈ t'.sections q
  parent?_old : ∀ x < t.size, t'.parent? x = t.parent? x
  sections_old : ∀ x < t.size,
    t'.sections x = if x = parent then t.sections x ++ [t.size] else t.sections x
  same_old : ∀ x < t.size, t.SameSlot t' x

section Append

variable {t : Tree} {parent : NodeId}

/-- The new slots hold the layout of the section. -/
theorem stores_append (hp : t.HasContainer parent) (s : Section) :
    (t.append parent s).1.Stores t.size (s.layout parent t.size) := by
  have hstores := stores_extend (t.appendSection parent t.size) (s.layout parent t.size)
  rw [appendSection, size_modifyContainer] at hstores
  rwa [append_eq, appendSection_extend hp.lt_size]

theorem content?_append_of_lt (hp : t.HasContainer parent) (s : Section) {x : NodeId}
    (hx : x < t.size) :
    (t.append parent s).1.content? x = (t.appendSection parent t.size).content? x := by
  rw [append_eq, appendSection_extend hp.lt_size,
    content?_extend_of_lt (by rwa [appendSection, size_modifyContainer])]

theorem sections_append_of_lt (hp : t.HasContainer parent) (s : Section) {x : NodeId}
    (hx : x < t.size) :
    (t.append parent s).1.sections x =
      if x = parent then t.sections x ++ [t.size] else t.sections x := by
  rw [← sections_appendSection hp, sections, sections,
    container?_congr (content?_append_of_lt hp s hx)]

theorem sameSlot_append (hp : t.HasContainer parent) (s : Section) {x : NodeId}
    (hx : x < t.size) : t.SameSlot (t.append parent s).1 x :=
  (sameSlot_appendSection t parent t.size x).trans
    (sameSlot_of_content? (content?_append_of_lt hp s hx))

theorem Linked.received (h : t.Linked) (hp : t.HasContainer parent) (s : Section) :
    t.Received (t.append parent s).1 parent s where
  size_eq := by rw [size_append, length_preorder]
  parts := by
    rw [length_preorder]
    exact holdsAll_preorder (stores_append hp s)
  walk := fun depth => by
    rw [length_preorder, ← List.append_nil (List.range' _ _), ← List.append_nil (s.lines depth)]
    exact renders_of_stores (stores_append hp s) .done
  holds_iff := fun s' =>
    have hs : (t.append parent s).1.Holds t.size s := holds_of_stores (stores_append hp s)
    ⟨fun hs' => hs'.unique hs, fun heq => heq ▸ hs⟩
  parent?_new := parent?_append_size t parent s
  parent_iff := fun _ _ => (h.append hp s).parent_iff
  parent?_old := fun _ hx => parent?_append_of_lt hx parent s
  sections_old := fun _ hx => sections_append_of_lt hp s hx
  same_old := fun _ hx => sameSlot_append hp s hx

end Append

/-- **An attachment stores a section.** In every tree that a run of edits makes,
an attachment is refused exactly if the parent is no container, for the reason
that it is none, and then the tree is left as it was. Otherwise the parts of the
section are put in the next slots in pre-order, the section itself is read back
from the first of them, which is the last one in its parent's list, and nothing
else of what was there before is changed. -/
theorem attach_stores (es : List Edit) (parent : NodeId) (s : Section) :
    let t := Tree.new.run es
    (∀ e, t.attach parent s = .error e ↔ t.Refuses parent e)
      ∧ ((∃ e, t.attach parent s = .error e) ↔ ¬ t.HasContainer parent)
      ∧ (InPlace.attach parent s).run t = InPlace.atOnce t (t.attach parent s)
      ∧ (t.HasContainer parent →
          ∃ t', t.attach parent s = .ok (t', t.size) ∧ t.Received t' parent s) := by
  intro t
  refine ⟨fun e => attach_eq_error, ?_, InPlace.run_attach t parent s, fun hp => ?_⟩
  · simp only [attach_eq_error, exists_refuses]
  · refine ⟨(t.append parent s).1, attach_eq_ok.mpr ⟨hp, ?_⟩, (linked_run es).received hp s⟩
    exact Prod.ext rfl (append_snd t parent s)

end Tree

end NginxConfig
