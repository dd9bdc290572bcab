import NginxConfig.Proofs.Tree.Forest
import NginxConfig.Proofs.Tree.InPlace

/-!
# Moves

A node is moved by taking it out of one list and putting it at the end of
another. `Moved` says what has become of the tree without saying where the node
came from: its parent is the one named, it is gone from every list but the end
of that parent's, and the rest is as it was. This leaves no choice
(`Moved.unique`), and two moves of one node from the same tree are a move away
from each other (`Moved.between`), so that of several moves of a node in a row
only the last one counts.

Whether a move is refused depends on what is above the new parent up to the
node itself, and the parent of the node is not part of that
(`Moved.within_iff`).
-/

namespace NginxConfig.Tree

/-! ## What a move does -/

/-- What has become of a tree in which a node was moved. Without a parent the
node has been taken out. -/
structure Moved (t t' : Tree) (id : NodeId) (parent : Option NodeId) : Prop where
  parent?_eq : ∀ x, t'.parent? x = if x = id then parent else t.parent? x
  sections_eq : ∀ x, t'.sections x =
    (t.sections x).filter (· ≠ id) ++ if parent = some x then [id] else []
  same : ∀ x, t.SameSlot t' x

theorem sameSlot_cut (t : Tree) (id x : NodeId) : t.SameSlot (t.cut id) x := by
  rw [cut]
  split
  · exact sameSlot_of_content? rfl
  · next p _ => exact (sameSlot_removeSection t p id x).trans (sameSlot_setParent _ id none x)

theorem sameSlot_link (t : Tree) (id parent x : NodeId) : t.SameSlot (t.link id parent) x :=
  (sameSlot_appendSection t parent id x).trans (sameSlot_setParent _ id (some parent) x)

namespace Moved

theorem size_eq {t t' : Tree} {id : NodeId} {parent : Option NodeId}
    (h : t.Moved t' id parent) : t'.size = t.size :=
  Nat.le_antisymm ((h.same _).size_le_iff.mpr (Nat.le_refl _))
    ((h.same _).size_le_iff.mp (Nat.le_refl _))

/-- Where a node is moved to decides the tree. -/
theorem unique {t u v : Tree} {id : NodeId} {parent : Option NodeId} (h : t.Moved u id parent)
    (h' : t.Moved v id parent) : u = v := by
  have hsections : ∀ x, u.sections x = v.sections x := fun x => by
    rw [h.sections_eq, h'.sections_eq]
  refine ext_views (fun x => ?_) fun x => ?_
  · rw [h.same, h'.same, hsections]
  · rw [h.parent?_eq, h'.parent?_eq]

/-- Where a node was before makes no difference to where it is moved. -/
theorem between {t u v : Tree} {id : NodeId} {a b : Option NodeId} (h : t.Moved u id a)
    (h' : t.Moved v id b) : u.Moved v id b where
  parent?_eq := fun x => by
    rw [h'.parent?_eq, h.parent?_eq]
    by_cases hx : x = id
    · rw [if_pos hx, if_pos hx]
    · rw [if_neg hx, if_neg hx, if_neg hx]
  sections_eq := fun x => by
    have hrest : (u.sections x).filter (· ≠ id) = (t.sections x).filter (· ≠ id) := by
      rw [h.sections_eq, List.filter_append, List.filter_filter]
      split <;> simp
    rw [h'.sections_eq, hrest]
  same := fun x => (h.same x).of_common (h'.same x)

/-- A climb that ends at the node does not use the node's own parent. -/
theorem within_of_agree {t u : Tree} {id x : NodeId}
    (hagree : ∀ y, y ≠ id → u.parent? y = t.parent? y) (hw : t.Within id x) : u.Within id x := by
  induction hw using Relation.ReflTransGen.head_induction_on with
  | refl => exact .refl u id
  | @head y p hp _ ih =>
      by_cases hy : y = id
      · exact hy ▸ .refl u id
      · exact .of_parent ((hagree y hy).trans hp) ih

theorem within_iff {t u : Tree} {id x : NodeId} {parent : Option NodeId}
    (h : t.Moved u id parent) : u.Within id x ↔ t.Within id x := by
  have hagree : ∀ y, y ≠ id → u.parent? y = t.parent? y := fun y hy => by
    rw [h.parent?_eq, if_neg hy]
  exact ⟨within_of_agree fun y hy => (hagree y hy).symm, within_of_agree hagree⟩

end Moved

namespace Linked

variable {t : Tree} (h : t.Linked)

include h

theorem moved_cut (id : NodeId) : t.Moved (t.cut id) id none where
  parent?_eq := parent?_cut t id
  sections_eq := fun x => by rw [h.sections_cut, if_neg (by simp), List.append_nil]
  same := sameSlot_cut t id

theorem moved_link {id parent : NodeId} (hid : id < t.size) (hp : t.HasContainer parent) :
    t.Moved ((t.cut id).link id parent) id (some parent) where
  parent?_eq := fun x => by
    rw [parent?_link (by rwa [size_cut]), parent?_cut]
    split <;> rfl
  sections_eq := fun x => by
    rw [sections_link ((Keeps.cut t id).hasContainer hp), h.sections_cut]
    by_cases hx : x = parent
    · rw [if_pos hx, if_pos (congrArg some hx.symm)]
    · rw [if_neg hx, if_neg fun heq => hx (Option.some.inj heq).symm, List.append_nil]
  same := fun x => (sameSlot_cut t id x).trans (sameSlot_link _ id parent x)

/-- Nothing happens to a tree in which the node is where it is moved to. -/
theorem moved_refl {id : NodeId} {parent : Option NodeId} (hp : t.parent? id = parent)
    (hlast : ∀ p ∈ parent, (t.sections p).getLast? = some id) : t.Moved t id parent where
  parent?_eq := fun x => by
    split
    · next hx => rw [hx, hp]
    · rfl
  sections_eq := fun x => by
    by_cases hx : parent = some x
    · obtain ⟨init, hinit⟩ := List.getLast?_eq_some_iff.mp (hlast x hx)
      have hnodup := h.nodup x
      rw [hinit] at hnodup
      have hself : init.filter (· ≠ id) = init := List.filter_eq_self.mpr fun c hc => by
        have hne : c ≠ id := fun heq =>
          (List.nodup_append.mp hnodup).2.2 c hc id (List.mem_singleton_self id) heq
        simpa using hne
      rw [if_pos hx, hinit, List.filter_append, hself]
      simp
    · rw [if_neg hx, List.append_nil, h.filter_sections_of_ne (hp ▸ hx)]
  same := fun x => sameSlot_of_content? rfl

/-! ## Taking a node out -/

theorem detach_eq_ok {id : NodeId} (hid : id < t.size) : t.detach id = .ok (t.cut id) := by
  obtain ⟨n, hn⟩ := node?_isSome.mpr hid
  rw [detach, node_eq_ok.mpr hn, ok_bind, Tree.cut, (node?_eq_some.mp hn).2]
  cases hp : n.parent with
  | none => rfl
  | some p =>
      obtain ⟨c, hc⟩ := h.hasContainer ((node?_eq_some.mp hn).2.trans hp)
      simp only
      rw [container_eq_ok.mpr hc]
      rfl

theorem detach_eq_ok_iff {t' : Tree} {id : NodeId} :
    t.detach id = .ok t' ↔ id < t.size ∧ t.Moved t' id none := by
  constructor
  · intro hd
    obtain ⟨hid, rfl⟩ := cut_of_detach hd
    exact ⟨hid, h.moved_cut id⟩
  · rintro ⟨hid, hm⟩
    rw [h.detach_eq_ok hid, (h.moved_cut id).unique hm]

theorem detach_eq_error_iff {id : NodeId} {e : Error} :
    t.detach id = .error e ↔ t.size ≤ id ∧ e = .unknownNode id := by
  constructor
  · intro hd
    have hid : t.size ≤ id := Nat.le_of_not_lt fun hlt => by
      rw [h.detach_eq_ok hlt] at hd
      cases hd
    have hnode : t.node id = .error (.unknownNode id) := node_eq_error.mpr ⟨hid, rfl⟩
    rw [detach, hnode] at hd
    exact ⟨hid, (Except.error.inj hd).symm⟩
  · rintro ⟨hid, rfl⟩
    rw [detach, node_eq_error.mpr ⟨hid, rfl⟩, error_bind]

end Linked

/-! ## Moving a node elsewhere -/

/-- Following lists of sections down from `id` leads to `x`, possibly in no steps. -/
def Leads (t : Tree) (id x : NodeId) : Prop :=
  Relation.ReflTransGen (fun parent child => child ∈ t.sections parent) id x

/-- Down the lists is back up the parents. -/
theorem Linked.leads_iff {t : Tree} (h : t.Linked) {id x : NodeId} :
    t.Leads id x ↔ t.Within id x := by
  rw [Leads, Within, ← Relation.reflTransGen_swap]
  simp only [h.parent_iff]

/-- Why a node cannot be moved to a parent. Only one reason is given: the node
comes before the parent, and the parent before the cycle. -/
inductive RefusesMove (t : Tree) (id parent : NodeId) : Error → Prop
  | unknown (hid : t.size ≤ id) : t.RefusesMove id parent (.unknownNode id)
  | place {e : Error} (hid : id < t.size) (hp : t.Refuses parent e) : t.RefusesMove id parent e
  | cycle (hid : id < t.size) (hp : t.HasContainer parent) (hl : t.Leads id parent) :
      t.RefusesMove id parent (.cycle id parent)

namespace Forest

variable {t : Tree} (h : t.Forest)

include h

/-- A node can be moved to any container that is not below it. -/
theorem exists_reattach {id parent : NodeId} (hid : id < t.size) :
    (∃ t', t.reattach id parent = .ok t') ↔ t.HasContainer parent ∧ ¬ t.Within id parent := by
  constructor
  · rintro ⟨t', hr⟩
    obtain ⟨-, hp, hw, -⟩ := link_of_reattach hr
    refine ⟨hp, fun hwithin => ?_⟩
    rw [h.isWithin_iff.mpr hwithin] at hw
    cases hw
  · rintro ⟨⟨c, hc⟩, hw⟩
    obtain ⟨n, hn⟩ := node?_isSome.mpr hid
    have hcheck : ¬ t.isWithin id parent = true := fun heq => hw (h.isWithin_iff.mp heq)
    refine ⟨(t.cut id).link id parent, ?_⟩
    rw [reattach, node_eq_ok.mpr hn, ok_bind, container_eq_ok.mpr hc, ok_bind, if_neg hcheck,
      h.detach_eq_ok hid]
    rfl

theorem reattach_eq_ok_iff {t' : Tree} {id parent : NodeId} :
    t.reattach id parent = .ok t' ↔
      id < t.size ∧ t.HasContainer parent ∧ ¬ t.Leads id parent
        ∧ t.Moved t' id (some parent) := by
  have hmoved : ∀ {u}, t.reattach id parent = .ok u → t.Moved u id (some parent) := fun hr => by
    obtain ⟨hid, hp, -, rfl⟩ := link_of_reattach hr
    exact h.moved_link hid hp
  constructor
  · intro hr
    have hid : id < t.size := (link_of_reattach hr).1
    obtain ⟨hp, hw⟩ := (h.exists_reattach hid).mp ⟨t', hr⟩
    exact ⟨hid, hp, mt h.leads_iff.mp hw, hmoved hr⟩
  · rintro ⟨hid, hp, hl, hm⟩
    obtain ⟨u, hu⟩ := (h.exists_reattach hid).mpr ⟨hp, mt h.leads_iff.mpr hl⟩
    rw [hu, (hmoved hu).unique hm]

theorem reattach_of_refusesMove {id parent : NodeId} {e : Error}
    (hr : t.RefusesMove id parent e) : t.reattach id parent = .error e := by
  cases hr with
  | unknown hid => rw [reattach, node_eq_error.mpr ⟨hid, rfl⟩, error_bind]
  | place hid hp =>
      obtain ⟨n, hn⟩ := node?_isSome.mpr hid
      rw [reattach, node_eq_ok.mpr hn, ok_bind, container_eq_error.mpr hp, error_bind]
  | cycle hid hp hl =>
      obtain ⟨n, hn⟩ := node?_isSome.mpr hid
      obtain ⟨c, hc⟩ := hp
      have hw : t.isWithin id parent = true := h.isWithin_iff.mpr (h.leads_iff.mp hl)
      rw [reattach, node_eq_ok.mpr hn, ok_bind, container_eq_ok.mpr hc, ok_bind, if_pos hw]
      rfl

theorem reattach_eq_error_iff {id parent : NodeId} {e : Error} :
    t.reattach id parent = .error e ↔ t.RefusesMove id parent e := by
  refine ⟨fun hr => ?_, h.reattach_of_refusesMove⟩
  -- One of the reasons there are applies, and it is the one that was given.
  have hreason : ∃ e', t.RefusesMove id parent e' := by
    by_cases hid : id < t.size
    · by_cases hp : t.HasContainer parent
      · by_cases hl : t.Leads id parent
        · exact ⟨_, .cycle hid hp hl⟩
        · obtain ⟨t', hok⟩ := (h.exists_reattach hid).mpr ⟨hp, mt h.leads_iff.mpr hl⟩
          rw [hok] at hr
          cases hr
      · obtain ⟨e', he⟩ := exists_refuses.mpr hp
        exact ⟨e', .place hid he⟩
    · exact ⟨_, .unknown (Nat.le_of_not_lt hid)⟩
  obtain ⟨e', he⟩ := hreason
  rw [h.reattach_of_refusesMove he] at hr
  exact Except.error.inj hr ▸ he

theorem of_reattach {t' : Tree} {id parent : NodeId} (hr : t.reattach id parent = .ok t') :
    t'.Forest := by
  have hedit := h.edit (.reattach id parent)
  rwa [Tree.edit, Edit.apply, hr] at hedit

/-! ## Moves in a row -/

/-- A node that has been moved is moved again as if it had not been. -/
theorem reattach_of_moved {u : Tree} (hu : u.Forest) {id : NodeId} {a : Option NodeId}
    (hm : t.Moved u id a) (parent : NodeId) : u.reattach id parent = t.reattach id parent := by
  have hleads : u.Leads id parent ↔ t.Leads id parent := by
    rw [hu.leads_iff, h.leads_iff, hm.within_iff]
  cases hr : t.reattach id parent with
  | ok t' =>
      obtain ⟨hid, hp, hl, hm'⟩ := h.reattach_eq_ok_iff.mp hr
      exact hu.reattach_eq_ok_iff.mpr ⟨hm.size_eq ▸ hid, (hm.same parent).hasContainer_iff.mpr hp,
        mt hleads.mp hl, hm.between hm'⟩
  | error e =>
      refine hu.reattach_of_refusesMove ?_
      cases h.reattach_eq_error_iff.mp hr with
      | unknown hid => exact .unknown (hm.size_eq ▸ hid)
      | place hid hp => exact .place (hm.size_eq ▸ hid) ((hm.same parent).refuses_iff.mpr hp)
      | cycle hid hp hl =>
          exact .cycle (hm.size_eq ▸ hid) ((hm.same parent).hasContainer_iff.mpr hp)
            (hleads.mpr hl)

/-- The last section of a container stays where it is when it is moved there. -/
theorem reattach_last {id parent : NodeId} (hlast : (t.sections parent).getLast? = some id) :
    t.reattach id parent = .ok t := by
  have hp : t.parent? id = some parent := h.parent_iff.mpr (List.mem_of_getLast? hlast)
  refine h.reattach_eq_ok_iff.mpr ⟨lt_size_of_parent? hp, h.hasContainer hp, fun hl => ?_, ?_⟩
  · exact h.not_within_parent hp (h.leads_iff.mp hl)
  · exact h.moved_refl hp fun p hmem => Option.some.inj hmem ▸ hlast

end Forest

/-! ## Every tree that edits make -/

/-- **Moves are exact.** In every tree that a run of edits makes, a move is
refused exactly if there is no such node, or else no such container, or else the
container is below the node; and a node is taken out unless there is no such node.
An operation that is refused leaves the tree as it was, also when it is carried
out in place. One that is not puts the node at the end of the new list, if there is
one, takes it from the old one and leaves all the rest as it was. No look-up after
the first ones fails. -/
theorem moves_are_exact (es : List Edit) (id parent : NodeId) :
    let t := Tree.new.run es
    ((∀ e, t.reattach id parent = .error e ↔ t.RefusesMove id parent e)
        ∧ (id < t.size → t.HasContainer parent → ¬ t.Leads id parent →
            ∃ t', t.reattach id parent = .ok t' ∧ t.Moved t' id (some parent)))
      ∧ ((∀ e, t.detach id = .error e ↔ t.size ≤ id ∧ e = .unknownNode id)
        ∧ (id < t.size → ∃ t', t.detach id = .ok t' ∧ t.Moved t' id none
            ∧ (t.parent? id = none → t' = t)))
      ∧ (∀ x, t.parent? id ≠ some x → (t.sections x).filter (· ≠ id) = t.sections x)
      ∧ ((InPlace.reattach id parent).run t =
            InPlace.atOnce t ((t.reattach id parent).map (·, ()))
        ∧ (InPlace.detach id).run t = InPlace.atOnce t ((t.detach id).map (·, ())))
      ∧ (∀ q, t.parent? id = some q → t.HasContainer q)
      ∧ (id < t.size → t.HasContainer parent →
          ∃ u, (InPlace.detach id).run t = .ok () u ∧ u.HasContainer parent) := by
  intro t
  have h : t.Forest := forest_run es
  refine ⟨⟨fun e => h.reattach_eq_error_iff, fun hid hp hl => ?_⟩,
    ⟨fun e => h.detach_eq_error_iff, fun hid => ?_⟩, fun x hx => h.filter_sections_of_ne hx,
    ⟨InPlace.run_reattach t id parent, InPlace.run_detach t id⟩, fun q hq => h.hasContainer hq,
    fun hid hp => ?_⟩
  · have hm := h.moved_link hid hp
    exact ⟨_, h.reattach_eq_ok_iff.mpr ⟨hid, hp, hl, hm⟩, hm⟩
  · refine ⟨t.cut id, h.detach_eq_ok hid, h.moved_cut id, fun hnone => ?_⟩
    rw [cut, hnone]
  · refine ⟨t.cut id, ?_, (Keeps.cut t id).hasContainer hp⟩
    rw [InPlace.run_detach, h.detach_eq_ok hid]
    rfl

/-- **Only the last move counts.** In every tree that a run of edits makes, to move
a node, or to take it out, and then to move it elsewhere comes out as moving it
there at once, with the same error if it is refused. Taking a node out twice is
taking it out once. The last section of a container can be taken out and put back,
or moved to where it is, and the tree is what it was. -/
theorem last_move_counts (es : List Edit) (id p q : NodeId) :
    let t := Tree.new.run es
    (∀ t', t.reattach id p = .ok t' → t'.reattach id q = t.reattach id q)
      ∧ (id < t.size → (t.detach id >>= (·.reattach id q)) = t.reattach id q)
      ∧ (t.detach id >>= (·.detach id)) = t.detach id
      ∧ ((t.sections p).getLast? = some id →
          (t.detach id >>= (·.reattach id p)) = .ok t ∧ t.reattach id p = .ok t) := by
  intro t
  have h : t.Forest := forest_run es
  have hcut : t.Moved (t.cut id) id none := h.moved_cut id
  have hback : ∀ {q}, id < t.size → (t.detach id >>= (·.reattach id q)) = t.reattach id q :=
    fun hid => by
      rw [h.detach_eq_ok hid, ok_bind, h.reattach_of_moved (h.cut id) hcut]
  refine ⟨fun t' hr => ?_, hback, ?_, fun hlast => ?_⟩
  · obtain ⟨-, -, -, hm⟩ := h.reattach_eq_ok_iff.mp hr
    exact h.reattach_of_moved (h.of_reattach hr) hm q
  · by_cases hid : id < t.size
    · have hagain : (t.cut id).Moved (t.cut id) id none := hcut.between hcut
      rw [h.detach_eq_ok hid, ok_bind]
      exact (h.toLinked.cut id).detach_eq_ok_iff.mpr ⟨hcut.size_eq ▸ hid, hagain⟩
    · rw [h.detach_eq_error_iff.mpr ⟨Nat.le_of_not_lt hid, rfl⟩, error_bind]
  · have hp : t.parent? id = some p := h.parent_iff.mpr (List.mem_of_getLast? hlast)
    have hmoved : t.reattach id p = .ok t := h.reattach_last hlast
    exact ⟨(hback (lt_size_of_parent? hp)).trans hmoved, hmoved⟩

end NginxConfig.Tree
