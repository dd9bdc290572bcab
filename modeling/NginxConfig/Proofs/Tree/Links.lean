import Mathlib.Data.List.Nodup
import NginxConfig.Proofs.Tree.Edits

/-!
# Parents and sections are one relation

A tree stores who sits where twice: a node names its parent, and a container
lists its sections. `Linked` says that the two agree. Every elementary change
either removes an edge from both records (`Linked.cut`) or adds one to both
(`Linked.addEdge`), so every run of edits keeps them in step.
-/

namespace NginxConfig.Tree

/-- The two records of the edges agree, and no list has an edge twice. -/
structure Linked (t : Tree) : Prop where
  parent_iff : ∀ {child parent}, t.parent? child = some parent ↔ child ∈ t.sections parent
  nodup : ∀ parent, (t.sections parent).Nodup

namespace Linked

theorem hasContainer {t : Tree} (h : t.Linked) {child parent : NodeId}
    (hp : t.parent? child = some parent) : t.HasContainer parent :=
  hasContainer_of_mem_sections (h.parent_iff.mp hp)

/-- A slot that is not taken is no parent. -/
theorem parent_ne_size {t : Tree} (h : t.Linked) (child : NodeId) :
    t.parent? child ≠ some t.size :=
  fun hp => Nat.lt_irrefl _ (h.hasContainer hp).lt_size

theorem new : Tree.new.Linked where
  parent_iff := fun {child parent} => by
    have hnone : Tree.new.parent? child = none := by
      cases child <;> rfl
    have hnil : Tree.new.sections parent = [] := by
      cases parent <;> rfl
    rw [hnone, hnil]
    simp
  nodup := fun parent => by
    have hnil : Tree.new.sections parent = [] := by
      cases parent <;> rfl
    rw [hnil]
    exact List.nodup_nil

/-- Nothing else of a tree matters. -/
theorem congr {t t' : Tree} (h : t.Linked) (hp : ∀ x, t'.parent? x = t.parent? x)
    (hs : ∀ x, t'.sections x = t.sections x) : t'.Linked where
  parent_iff := by
    intro child parent
    rw [hp, hs]
    exact h.parent_iff
  nodup := fun parent => hs parent ▸ h.nodup parent

/-- A list without the node stays as it is when the node is taken out. -/
theorem filter_sections_of_ne {t : Tree} (h : t.Linked) {id x : NodeId}
    (hx : t.parent? id ≠ some x) : (t.sections x).filter (· ≠ id) = t.sections x :=
  List.filter_eq_self.mpr fun c hc => by
    have hne : c ≠ id := fun heq => hx (h.parent_iff.mpr (heq ▸ hc))
    simpa using hne

/-- Under agreement a cut takes the node from whichever list it is in. -/
theorem sections_cut {t : Tree} (h : t.Linked) (id x : NodeId) :
    (t.cut id).sections x = (t.sections x).filter (· ≠ id) := by
  rw [Tree.sections_cut]
  split
  · rfl
  · next hx => exact (h.filter_sections_of_ne hx).symm

theorem cut {t : Tree} (h : t.Linked) (id : NodeId) : (t.cut id).Linked where
  parent_iff := by
    intro child parent
    rw [parent?_cut, h.sections_cut, List.mem_filter, ← h.parent_iff]
    by_cases hc : child = id
    · simp [hc]
    · simp [hc]
  nodup := fun parent => by
    rw [h.sections_cut]
    exact (h.nodup parent).filter _

/-- One edge more in both records, to a node that had no parent. -/
theorem addEdge {t t' : Tree} (h : t.Linked) {id parent : NodeId} (free : t.parent? id = none)
    (hp : ∀ x, t'.parent? x = if x = id then some parent else t.parent? x)
    (hs : ∀ x, t'.sections x = if x = parent then t.sections x ++ [id] else t.sections x) :
    t'.Linked := by
  have hnotin : ∀ q, id ∉ t.sections q := fun q hq => by
    rw [h.parent_iff.mpr hq] at free
    cases free
  refine ⟨?_, fun q => ?_⟩
  · intro child q
    rw [hp, hs]
    by_cases hc : child = id
    · subst hc
      by_cases hq : q = parent
      · simp [hq]
      · simp [hq, hnotin q, Ne.symm hq]
    · rw [if_neg hc, h.parent_iff]
      by_cases hq : q = parent
      · simp [hq, hc]
      · rw [if_neg hq]
  · rw [hs]
    split
    · exact List.nodup_append.mpr ⟨h.nodup q, by simp, fun a ha b hb hab => by
        rw [List.mem_singleton] at hb
        exact hnotin q (hb ▸ hab ▸ ha)⟩
    · exact h.nodup q

theorem link {t : Tree} (h : t.Linked) {id parent : NodeId} (hid : id < t.size)
    (free : t.parent? id = none) (hp : t.HasContainer parent) : (t.link id parent).Linked :=
  h.addEdge free (parent?_link hid parent) (sections_link hp id)

theorem addLeaf {t : Tree} (h : t.Linked) {parent : NodeId} {content : Content}
    (hp : t.HasContainer parent) (hc : content.Childless) : (t.addLeaf parent content).Linked :=
  h.addEdge (parent?_of_size_le (Nat.le_refl _)) (parent?_addLeaf t parent content)
    (sections_addLeaf hp hc)

theorem append {t : Tree} (h : t.Linked) {parent : NodeId} (hp : t.HasContainer parent)
    (s : Section) : (t.append parent s).1.Linked :=
  append_induction (fun ht hp hc => ht.addLeaf hp hc) h hp s

theorem changeOptions {t : Tree} (h : t.Linked) (id : NodeId) (f : Options → Options) :
    (t.changeOptions id f).Linked :=
  h.congr (parent?_changeOptions t id f) (sections_changeOptions t id f)

/-- The step of every run. -/
theorem edit {t : Tree} (h : t.Linked) (e : Edit) : (t.edit e).Linked := by
  rcases t.edit_cases e with he | ⟨p, s, hp, he⟩ | ⟨id, he⟩ | ⟨id, p, hid, hp, -, he⟩ |
    ⟨id, f, he⟩
  · rw [he]; exact h
  · rw [he]; exact h.append hp s
  · rw [he]; exact h.cut id
  · have hid' : id < (t.cut id).size := by rwa [size_cut]
    have free : (t.cut id).parent? id = none := by rw [parent?_cut, if_pos rfl]
    rw [he]
    exact (h.cut id).link hid' free ((Keeps.cut t id).hasContainer hp)
  · rw [he]; exact h.changeOptions id f

end Linked

theorem linked_run (es : List Edit) : (Tree.new.run es).Linked :=
  run_induction Linked.new (fun e h => h.edit e) es

theorem keeps_run (t : Tree) (es : List Edit) : t.Keeps (t.run es) :=
  run_induction (Keeps.refl t) (fun {u} e h => h.trans (u.keeps_edit e)) es

/-- **Parents match sections.** In every tree that a run of edits makes, a
node's parent is the one container that lists it, and lists it once; every
listed id has a slot; slot 0 is a group; and no further edit gives up a slot
or turns a node into another. -/
theorem parents_match_sections (es : List Edit) :
    let t := Tree.new.run es
    (∀ child parent, t.parent? child = some parent ↔
        ∃ c, t.container? parent = some c ∧ child ∈ c.sections)
      ∧ (∀ child parent, t.parent? child = some parent → (t.sections parent).count child = 1)
      ∧ (∀ p q child, child ∈ t.sections p → child ∈ t.sections q → p = q)
      ∧ (∀ p, (t.sections p).Nodup)
      ∧ (∀ p, ∀ child ∈ t.sections p, child < t.size)
      ∧ (∃ c, t.container? root = some c ∧ c.header = none)
      ∧ ∀ e, t.Keeps (t.edit e) := by
  intro t
  have h : t.Linked := linked_run es
  refine ⟨fun child parent => ?_, fun child parent hp => ?_, fun p q child hp hq => ?_, h.nodup,
    fun p child hc => lt_size_of_parent? (h.parent_iff.mpr hc), ?_, t.keeps_edit⟩
  · rw [h.parent_iff]
    constructor
    · intro hc
      obtain ⟨c, hp⟩ := hasContainer_of_mem_sections hc
      exact ⟨c, hp, sections_of_container? hp ▸ hc⟩
    · rintro ⟨c, hp, hc⟩
      exact sections_of_container? hp ▸ hc
  · exact List.count_eq_one_of_mem (h.nodup parent) (h.parent_iff.mp hp)
  · exact Option.some.inj ((h.parent_iff.mpr hp).symm.trans (h.parent_iff.mpr hq))
  · exact (keeps_run Tree.new es).container (c := ⟨none, ∅, []⟩) rfl

end NginxConfig.Tree
