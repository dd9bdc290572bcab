import Mathlib.Data.List.Perm.Subperm
import Mathlib.Logic.Relation
import NginxConfig.Proofs.Tree.Links

/-!
# The tree is a forest

After a move a parent may stand in a later slot than its child, so no order of
the slots explains why climbing ends. What does is an invariant: the parent
relation is well founded (`Forest.acyclic`). Moves keep it because of the
check for cycles, and that check is itself a climb, cut off after a number of
steps. The two are settled together: in a forest the cut never bites
(`path_eq`), so there the check is exact (`isWithin_iff`), so a move leaves a
forest behind (`Forest.edit`).
-/

namespace NginxConfig.Tree

/-- Climbing from `node` leads to `ancestor`, possibly in no steps. -/
def Within (t : Tree) (ancestor node : NodeId) : Prop :=
  Relation.ReflTransGen (fun child parent => t.parent? child = some parent) node ancestor

theorem Within.refl (t : Tree) (id : NodeId) : t.Within id id :=
  Relation.ReflTransGen.refl

theorem Within.of_parent {t : Tree} {ancestor node parent : NodeId}
    (hp : t.parent? node = some parent) (h : t.Within ancestor parent) :
    t.Within ancestor node :=
  Relation.ReflTransGen.head hp h

theorem Within.trans {t : Tree} {a b c : NodeId} (h : t.Within a b) (h' : t.Within b c) :
    t.Within a c :=
  Relation.ReflTransGen.trans h' h

theorem within_iff {t : Tree} {ancestor node : NodeId} :
    t.Within ancestor node ↔
      ancestor = node ∨ ∃ parent, t.parent? node = some parent ∧ t.Within ancestor parent := by
  constructor
  · intro h
    rcases Relation.ReflTransGen.cases_head h with rfl | ⟨parent, hp, hw⟩
    · exact Or.inl rfl
    · exact Or.inr ⟨parent, hp, hw⟩
  · rintro (rfl | ⟨parent, hp, hw⟩)
    · exact .refl t _
    · exact .of_parent hp hw

/-- A cut takes an edge away and adds none. -/
theorem parent?_of_cut {t : Tree} {id x p : NodeId} (h : (t.cut id).parent? x = some p) :
    t.parent? x = some p := by
  rw [parent?_cut] at h
  split at h
  · cases h
  · exact h

theorem within_of_cut {t : Tree} {id ancestor node : NodeId}
    (h : (t.cut id).Within ancestor node) : t.Within ancestor node :=
  Relation.ReflTransGen.mono (fun _ _ hp => parent?_of_cut hp) _ _ h

/-- Linked records whose parent relation has no infinite climb. -/
structure Forest (t : Tree) : Prop extends Linked t where
  acyclic : WellFounded fun parent child => t.parent? child = some parent

namespace Forest

/-- Induction from the nodes without a parent downwards. -/
theorem climb_induction {t : Tree} (h : t.Forest) {P : NodeId → Prop}
    (step : ∀ x, (∀ p, t.parent? x = some p → P p) → P x) (x : NodeId) : P x :=
  h.acyclic.induction x step

/-- No node lies on the climb from its own parent. -/
theorem not_within_parent {t : Tree} (h : t.Forest) {x parent : NodeId}
    (hp : t.parent? x = some parent) : ¬ t.Within x parent := by
  induction x using h.climb_induction generalizing parent with
  | step x ih =>
      intro hw
      -- Were there a cycle through `x`, there would be one through its parent.
      rcases within_iff.mp hw with rfl | ⟨q, hq, hwq⟩
      · exact ih x hp hp (.refl t x)
      · exact ih parent hp hq ((Within.of_parent hp (.refl t parent)).trans hwq)

/-! ## The elementary changes -/

theorem new : Tree.new.Forest where
  toLinked := Linked.new
  acyclic := ⟨fun x => ⟨x, fun p hp => by
    have hnone : Tree.new.parent? x = none := by
      cases x <;> rfl
    rw [hnone] at hp
    cases hp⟩⟩

theorem cut {t : Tree} (h : t.Forest) (id : NodeId) : (t.cut id).Forest where
  toLinked := h.toLinked.cut id
  acyclic := Subrelation.wf (fun hp => parent?_of_cut hp) h.acyclic

/-- An edge from `id` to a node that does not climb to `id` closes no cycle. -/
theorem acyclic_addEdge {t t' : Tree} (h : t.Forest) {id parent : NodeId}
    (hw : ¬ t.Within id parent)
    (hp : ∀ x, t'.parent? x = if x = id then some parent else t.parent? x) :
    WellFounded fun parent child => t'.parent? child = some parent := by
  have hold : ∀ {x q}, x ≠ id → t'.parent? x = some q → t.parent? x = some q := by
    intro x q hx hq
    rwa [hp, if_neg hx] at hq
  have hfree : ∀ x, ¬ t.Within id x → Acc (fun p c => t'.parent? c = some p) x := fun x => by
    induction x using h.climb_induction with
    | step x ih =>
        intro hx
        have hne : x ≠ id := fun heq => hx (heq ▸ .refl t x)
        exact ⟨x, fun q hq =>
          ih q (hold hne hq) fun hwq => hx (.of_parent (hold hne hq) hwq)⟩
  have hid : Acc (fun p c => t'.parent? c = some p) id := ⟨id, fun q hq => by
    rw [hp, if_pos rfl] at hq
    obtain rfl := Option.some.inj hq
    exact hfree _ hw⟩
  refine ⟨fun x => ?_⟩
  induction x using h.climb_induction with
  | step x ih =>
      by_cases hx : x = id
      · exact hx ▸ hid
      · exact ⟨x, fun q hq => ih q (hold hx hq)⟩

theorem link {t : Tree} (h : t.Forest) {id parent : NodeId} (hid : id < t.size)
    (free : t.parent? id = none) (hp : t.HasContainer parent) (hw : ¬ t.Within id parent) :
    (t.link id parent).Forest where
  toLinked := h.toLinked.link hid free hp
  acyclic := h.acyclic_addEdge hw (parent?_link hid parent)

theorem addLeaf {t : Tree} (h : t.Forest) {parent : NodeId} {content : Content}
    (hp : t.HasContainer parent) (hc : content.Childless) : (t.addLeaf parent content).Forest where
  toLinked := h.toLinked.addLeaf hp hc
  acyclic := by
    have hw : ¬ t.Within t.size parent := fun hw => by
      -- The new slot is nobody's parent, and it is not `parent` either.
      rcases Relation.ReflTransGen.cases_tail hw with heq | ⟨x, -, hx⟩
      · exact Nat.lt_irrefl _ (heq ▸ hp.lt_size)
      · exact h.parent_ne_size x hx
    exact h.acyclic_addEdge hw (parent?_addLeaf t parent content)

theorem append {t : Tree} (h : t.Forest) {parent : NodeId} (hp : t.HasContainer parent)
    (s : Section) : (t.append parent s).1.Forest :=
  append_induction (fun ht hp hc => ht.addLeaf hp hc) h hp s

theorem changeOptions {t : Tree} (h : t.Forest) (id : NodeId) (f : Options → Options) :
    (t.changeOptions id f).Forest where
  toLinked := h.toLinked.changeOptions id f
  acyclic := by
    simp only [parent?_changeOptions]
    exact h.acyclic

end Forest

/-! ## Bounded climbs -/

theorem within_of_mem_pathFrom {t : Tree} :
    ∀ {steps : Nat} {x a : NodeId}, a ∈ t.pathFrom steps x → t.Within a x
  | 0, _, _, h => by cases h
  | steps + 1, x, a, h => by
      rw [pathFrom, List.mem_cons] at h
      rcases h with rfl | h
      · exact .refl t a
      · cases hp : t.parent? x with
        | none => rw [hp] at h; cases h
        | some p =>
            rw [hp] at h
            exact .of_parent hp (within_of_mem_pathFrom h)

/-- A climb that has ended before its bound is the same under any larger one. -/
theorem pathFrom_succ_of_length_lt {t : Tree} :
    ∀ {steps : Nat} {x : NodeId}, (t.pathFrom steps x).length < steps →
      t.pathFrom (steps + 1) x = t.pathFrom steps x
  | 0, _, h => absurd h (Nat.not_lt_zero _)
  | steps + 1, x, h => by
      rw [pathFrom, pathFrom]
      cases hp : t.parent? x with
      | none => rfl
      | some p =>
          rw [pathFrom, hp, List.length_cons] at h
          exact congrArg (x :: ·) (pathFrom_succ_of_length_lt (Nat.lt_of_succ_lt_succ h))

namespace Forest

theorem nodup_pathFrom {t : Tree} (h : t.Forest) :
    ∀ (steps : Nat) (x : NodeId), (t.pathFrom steps x).Nodup
  | 0, _ => List.nodup_nil
  | steps + 1, x => by
      rw [pathFrom]
      cases hp : t.parent? x with
      | none => exact List.nodup_singleton x
      | some p =>
          exact List.nodup_cons.mpr ⟨fun hm => h.not_within_parent hp (within_of_mem_pathFrom hm),
            h.nodup_pathFrom steps p⟩

theorem lt_size_of_within {t : Tree} (h : t.Forest) {a x : NodeId} (hw : t.Within a x)
    (hx : x < t.size) : a < t.size := by
  rcases Relation.ReflTransGen.cases_tail hw with rfl | ⟨y, -, hy⟩
  · exact hx
  · exact (h.hasContainer hy).lt_size

/-- A climb through slots cannot be longer than there are slots. -/
theorem length_pathFrom_le {t : Tree} (h : t.Forest) (steps : Nat) {x : NodeId}
    (hx : x < t.size) : (t.pathFrom steps x).length ≤ t.size := by
  have hsub : t.pathFrom steps x ⊆ List.range t.size := fun a ha =>
    List.mem_range.mpr (h.lt_size_of_within (within_of_mem_pathFrom ha) hx)
  simpa using ((h.nodup_pathFrom steps x).subperm hsub).length_le

/-- In a forest the bound on a climb never bites. -/
theorem path_eq {t : Tree} (h : t.Forest) (x : NodeId) :
    t.path x = x :: ((t.parent? x).map t.path).getD [] := by
  rw [path, pathFrom]
  cases hp : t.parent? x with
  | none => rfl
  | some p =>
      have hlen := h.length_pathFrom_le (t.size + 1) (lt_size_of_parent? hp)
      rw [pathFrom, hp, List.length_cons] at hlen
      exact congrArg (x :: ·) (pathFrom_succ_of_length_lt (Nat.lt_of_succ_le hlen)).symm

theorem mem_path {t : Tree} (h : t.Forest) {a x : NodeId} : a ∈ t.path x ↔ t.Within a x := by
  induction x using h.climb_induction with
  | step x ih =>
      rw [h.path_eq, List.mem_cons, within_iff]
      refine or_congr Iff.rfl ?_
      cases hp : t.parent? x with
      | none => simp
      | some p => simp [ih p hp]

/-- The check for cycles is exact. -/
theorem isWithin_iff {t : Tree} (h : t.Forest) {ancestor node : NodeId} :
    t.isWithin ancestor node = true ↔ t.Within ancestor node := by
  rw [isWithin, List.contains_iff_mem, h.mem_path]

/-- The path of a section is that of its container, and the section in front. -/
theorem path_of_parent {t : Tree} (h : t.Forest) {x parent : NodeId}
    (hp : t.parent? x = some parent) : t.path x = x :: t.path parent := by
  rw [h.path_eq, hp]; rfl

theorem length_path_le {t : Tree} (h : t.Forest) {x : NodeId} (hx : x < t.size) :
    (t.path x).length ≤ t.size :=
  h.length_pathFrom_le _ hx

/-! ## Runs -/

theorem edit {t : Tree} (h : t.Forest) (e : Edit) : (t.edit e).Forest := by
  rcases t.edit_cases e with he | ⟨p, s, hp, he⟩ | ⟨id, he⟩ | ⟨id, p, hid, hp, hw, he⟩ |
    ⟨id, f, he⟩
  · rw [he]; exact h
  · rw [he]; exact h.append hp s
  · rw [he]; exact h.cut id
  · have hid' : id < (t.cut id).size := by rwa [size_cut]
    have free : (t.cut id).parent? id = none := by rw [parent?_cut, if_pos rfl]
    have hfar : ¬ (t.cut id).Within id p := fun hc => by
      rw [h.isWithin_iff.mpr (within_of_cut hc)] at hw
      cases hw
    rw [he]
    exact (h.cut id).link hid' free ((Keeps.cut t id).hasContainer hp) hfar
  · rw [he]; exact h.changeOptions id f

end Forest

theorem forest_run (es : List Edit) : (Tree.new.run es).Forest :=
  run_induction Forest.new (fun e h => h.edit e) es

end NginxConfig.Tree
