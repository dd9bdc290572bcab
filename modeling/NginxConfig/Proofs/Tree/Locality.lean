import NginxConfig.Proofs.Tree.Moves
import NginxConfig.Proofs.Tree.Storage

/-!
# Edits are local

All nodes are in one array, and every edit writes into it. What is drawn of a node
depends on what stands in the slots below it and on nothing else
(`Forest.lines_congr`), and an edit changes what stands in at most two of the slots
that were taken (`content?_edit`): the lists of the old and the new parent, or the
options of one container. So a node is drawn as before unless it is one of these
containers or above one of them (`Forest.drawnAlike_edit`).

A move is no exception. It changes lists above the node that is moved, never below
it, because the check for cycles keeps the new parent out of what is below.
-/

namespace NginxConfig

/-- The nodes that an edit names. -/
def Edit.nodes : Edit → List NodeId
  | .attach parent _ => [parent]
  | .detach id => [id]
  | .reattach id parent => [id, parent]
  | .setOption id _ _ => [id]
  | .optionEntry id _ _ _ => [id]

namespace Tree

/-- The containers that an edit writes to: the one that gets a section or an option,
and the one that a node is taken from. -/
def written (t : Tree) : Edit → List NodeId
  | .attach parent _ => [parent]
  | .detach id => (t.parent? id).toList
  | .reattach id parent => (t.parent? id).toList ++ [parent]
  | .setOption id _ _ => [id]
  | .optionEntry id _ _ _ => [id]

/-- A node is drawn alike in two trees, on its own and at every depth. -/
structure DrawnAlike (t t' : Tree) (x : NodeId) : Prop where
  renderNode_eq : t'.renderNode x = t.renderNode x
  lines_eq : ∀ depth, t'.lines x depth = t.lines x depth

theorem DrawnAlike.refl (t : Tree) (x : NodeId) : t.DrawnAlike t x :=
  ⟨rfl, fun _ => rfl⟩

theorem DrawnAlike.trans {t u v : Tree} {x : NodeId} (h : t.DrawnAlike u x)
    (h' : u.DrawnAlike v x) : t.DrawnAlike v x :=
  ⟨h'.renderNode_eq.trans h.renderNode_eq,
    fun depth => (h'.lines_eq depth).trans (h.lines_eq depth)⟩

/-! ## Below a node -/

theorem Within.lt_size {t : Tree} {id x : NodeId} (h : t.Within id x) (hid : id < t.size) :
    x < t.size := by
  rcases within_iff.mp h with rfl | ⟨parent, hp, -⟩
  · exact hid
  · exact lt_size_of_parent? hp

/-- What is drawn of a node depends on the slots below it only. -/
theorem Forest.lines_congr {t t' : Tree} (h : t.Forest) (h' : t'.Forest) {x : NodeId}
    (hx : x < t.size) (hsame : ∀ y, t.Within x y → t'.content? y = t.content? y) (depth : Nat) :
    t'.lines x depth = t.lines x depth := by
  induction x using h.descend_induction generalizing depth with
  | step x ih =>
      have hself : t'.content? x = t.content? x := hsame x (.refl t x)
      rcases directive_or_container hx with ⟨d, hd⟩ | ⟨c, hc⟩
      · rw [h.lines_directive hd, h'.lines_directive (hself.trans hd)]
      · rw [h.lines_container hc, h'.lines_container ((container?_congr hself).trans hc)]
        congr 1
        funext inner
        congr 1
        refine List.flatMap_congr fun child hm => ?_
        have hchild : child ∈ t.sections x := sections_of_container? hc ▸ hm
        have hp : t.parent? child = some x := h.parent_iff.mpr hchild
        exact ih child hchild (lt_size_of_parent? hp)
          (fun y hy => hsame y ((Within.of_parent hp (.refl t x)).trans hy)) inner

theorem renderNode_of_lt {t : Tree} {x : NodeId} (hx : x < t.size) :
    t.renderNode x = .ok (Line.renderAll (t.lines x 0)) := by
  obtain ⟨n, hn⟩ := node?_isSome.mpr hx
  rw [renderNode, node_eq_ok.mpr hn, ok_bind]
  rfl

theorem Forest.drawnAlike {t t' : Tree} (h : t.Forest) (h' : t'.Forest) (hsize : t.size ≤ t'.size)
    {x : NodeId} (hx : x < t.size) (hsame : ∀ y, t.Within x y → t'.content? y = t.content? y) :
    t.DrawnAlike t' x where
  renderNode_eq := by
    rw [renderNode_of_lt hx, renderNode_of_lt (Nat.lt_of_lt_of_le hx hsize),
      h.lines_congr h' hx hsame]
  lines_eq := h.lines_congr h' hx hsame

/-! ## Where an edit writes -/

theorem content?_cut {t : Tree} {id y : NodeId} (hy : t.parent? id ≠ some y) :
    (t.cut id).content? y = t.content? y := by
  rw [cut]
  split
  · rfl
  · next parent hp =>
      have hne : y ≠ parent := fun heq => hy (heq ▸ hp)
      rw [content?_setParent, removeSection, content?_modifyContainer_of_ne hne]

theorem content?_link {t : Tree} (id : NodeId) {parent y : NodeId} (hy : y ≠ parent) :
    (t.link id parent).content? y = t.content? y := by
  rw [link, content?_setParent, appendSection, content?_modifyContainer_of_ne hy]

/-- What stands in a slot is changed only where an edit writes to. -/
theorem content?_edit {t : Tree} {e : Edit} {y : NodeId} (hlt : y < t.size)
    (hy : y ∉ t.written e) : (t.edit e).content? y = t.content? y := by
  rcases t.edit_eq_or_makes e with h | h
  · rw [h]
  · generalize t.edit e = t' at h ⊢
    cases h with
    | attach s hp =>
        rw [content?_append_of_lt hp s hlt, appendSection,
          content?_modifyContainer_of_ne (List.ne_of_not_mem_cons hy)]
    | @detach id hid =>
        exact content?_cut fun hp => hy (Option.mem_toList.mpr hp)
    | @reattach id parent hid hp hw =>
        rw [written, List.mem_append, not_or, List.mem_singleton] at hy
        rw [content?_link id hy.2, content?_cut fun hp => hy.1 (Option.mem_toList.mpr hp)]
    | setOption id key value => exact content?_modifyContainer_of_ne (List.ne_of_not_mem_cons hy) _
    | optionEntry id key default write f =>
        exact content?_modifyContainer_of_ne (List.ne_of_not_mem_cons hy) _

/-- What is above a node is the same in trees that agree on the parents up there. -/
theorem within_iff_of_agree {t u : Tree} {x p : NodeId}
    (hagree : ∀ y, t.Within y p → u.parent? y = t.parent? y) : u.Within x p ↔ t.Within x p := by
  constructor
  · intro hw
    induction hw with
    | refl => exact .refl t p
    | @tail y z _ hz ih => exact Relation.ReflTransGen.tail ih ((hagree y ih).symm.trans hz)
  · intro hw
    induction hw with
    | refl => exact .refl u p
    | @tail y z hy hz ih => exact Relation.ReflTransGen.tail ih ((hagree y hy).trans hz)

/-- What is above no node that an edit names is above no place that it writes to. -/
theorem not_within_written {t : Tree} {e : Edit} {x : NodeId}
    (h : ∀ a ∈ e.nodes, ¬ t.Within x a) : ∀ p ∈ t.written e, ¬ t.Within x p := by
  have hparent : ∀ {id p}, id ∈ e.nodes → p ∈ (t.parent? id).toList → ¬ t.Within x p :=
    fun hid hp hw => h _ hid (.of_parent (Option.mem_toList.mp hp) hw)
  cases e with
  | attach parent s => exact h
  | detach id => exact fun p => hparent List.mem_cons_self
  | reattach id parent =>
      intro p hp
      rcases List.mem_append.mp hp with hold | hnew
      · exact hparent List.mem_cons_self hold
      · exact h p (List.mem_cons_of_mem id hnew)
  | setOption id key value => exact h
  | optionEntry id key default write => exact h

/-- No edit of a run writes to a node or to anything below it. -/
def Spares (t : Tree) (x : NodeId) : List Edit → Prop
  | [] => True
  | e :: rest => (∀ p ∈ t.written e, ¬ t.Within x p) ∧ (t.edit e).Spares x rest

namespace Forest

variable {t : Tree} (h : t.Forest)

include h

/-- The step of every run: what is not at or above a place that is written to is drawn
as before. -/
theorem drawnAlike_edit {e : Edit} {x : NodeId} (hx : x < t.size)
    (hfar : ∀ p ∈ t.written e, ¬ t.Within x p) : t.DrawnAlike (t.edit e) x :=
  h.drawnAlike (h.edit e) (t.keeps_edit e).size_le hx fun _ hy =>
    content?_edit (hy.lt_size hx) fun hm => hfar _ hm hy

theorem drawnAlike_run {es : List Edit} {x : NodeId} (hx : x < t.size) (hspares : t.Spares x es) :
    t.DrawnAlike (t.run es) x := by
  induction es generalizing t with
  | nil => exact .refl t x
  | cons e rest ih =>
      have hlater : x < (t.edit e).size := Nat.lt_of_lt_of_le hx (t.keeps_edit e).size_le
      exact (h.drawnAlike_edit hx hspares.1).trans (ih (h.edit e) hlater hspares.2)

/-! ## Moves -/

theorem not_within_parents {id : NodeId} : ∀ p ∈ (t.parent? id).toList, ¬ t.Within id p :=
  fun _ hp => h.not_within_parent (Option.mem_toList.mp hp)

/-- The new parent is not below the node, or else the move is refused. -/
theorem not_within_reattach {id parent : NodeId} (hw : t.isWithin id parent = false) :
    ∀ p ∈ t.written (.reattach id parent), ¬ t.Within id p := by
  intro p hp hid
  rcases List.mem_append.mp hp with hold | hnew
  · exact h.not_within_parents p hold hid
  · obtain rfl := List.mem_singleton.mp hnew
    rw [h.isWithin_iff.mpr hid] at hw
    cases hw

/-- A place that is written to has the same nodes above it before and after. -/
theorem within_edit_iff {e : Edit} {p x : NodeId} (hp : p ∈ t.written e) :
    (t.edit e).Within x p ↔ t.Within x p := by
  rcases t.edit_eq_or_makes e with heq | hmakes
  · rw [heq]
  · refine within_iff_of_agree fun y hy => ?_
    generalize t.edit e = t' at hmakes ⊢
    cases hmakes with
    | attach s hparent =>
        obtain rfl := List.mem_singleton.mp hp
        exact parent?_append_of_lt (h.lt_size_of_within hy hparent.lt_size) _ s
    | @detach id hid =>
        have hne : y ≠ id := fun heq => h.not_within_parents p hp (heq ▸ hy)
        rw [parent?_cut, if_neg hne]
    | @reattach id parent hid hparent hw =>
        have hne : y ≠ id := fun heq => h.not_within_reattach hw p hp (heq ▸ hy)
        rw [parent?_link (by rwa [size_cut]), if_neg hne, parent?_cut, if_neg hne]
    | setOption id key value => exact parent?_changeOptions t id _ y
    | optionEntry id key default write f => exact parent?_changeOptions t id f y

/-- A node that is moved is drawn as before, and so is what is below it. -/
theorem drawnAlike_move {e : Edit} {id y : NodeId}
    (hmove : e = .detach id ∨ ∃ parent, e = .reattach id parent) (hy : t.Within id y) :
    t.DrawnAlike (t.edit e) y := by
  rcases t.edit_eq_or_makes e with heq | hmakes
  · rw [heq]
    exact .refl t y
  · have hfar : id < t.size ∧ ∀ p ∈ t.written e, ¬ t.Within id p := by
      rcases hmove with rfl | ⟨parent, rfl⟩
      · generalize t.edit _ = t' at hmakes
        cases hmakes with
        | detach hid => exact ⟨hid, h.not_within_parents⟩
      · generalize t.edit _ = t' at hmakes
        cases hmakes with
        | reattach hid hparent hw => exact ⟨hid, h.not_within_reattach hw⟩
    exact h.drawnAlike_edit (hy.lt_size hfar.1) fun p hp hyp => hfar.2 p hp (hy.trans hyp)

end Forest

/-! ## Every tree that edits make -/

/-- **Edits are local.** Take a tree that a run of edits makes. An edit changes the text
of an old node only if the node is a container that the edit writes to or is above one,
and these are the same nodes before and after; so a run of edits that write elsewhere
changes nothing. A move changes the text of the node that is moved and of what is below
it in no case. An edit that names only nodes off the root leaves the text of the tree as
it is. -/
theorem edits_are_local (es : List Edit) (e : Edit) :
    let t := Tree.new.run es
    (∀ x < t.size, (∀ p ∈ t.written e, ¬ t.Within x p) → t.DrawnAlike (t.edit e) x)
      ∧ (∀ p ∈ t.written e, ∀ x, (t.edit e).Within x p ↔ t.Within x p)
      ∧ (∀ later, ∀ x < t.size, t.Spares x later → t.DrawnAlike (t.run later) x)
      ∧ (∀ id, e = .detach id ∨ (∃ parent, e = .reattach id parent) →
          ∀ y, t.Within id y → t.DrawnAlike (t.edit e) y)
      ∧ ((∀ a ∈ e.nodes, ¬ t.Within root a) → (t.edit e).render = t.render) := by
  intro t
  have h : t.Forest := forest_run es
  refine ⟨fun x hx hfar => h.drawnAlike_edit hx hfar, fun p hp x => h.within_edit_iff hp,
    fun later x hx hspares => h.drawnAlike_run hx hspares,
    fun id hmove y hy => h.drawnAlike_move hmove hy, fun hoff => ?_⟩
  have hroot : root < t.size :=
    Nat.lt_of_lt_of_le Nat.zero_lt_one (keeps_run Tree.new es).size_le
  rw [render, render, (h.drawnAlike_edit hroot (not_within_written hoff)).lines_eq]

/-- A block is moved out of a container, and only what was above it is drawn anew. -/
example :
    let t := Tree.new.run
      [.attach root (.container (some "a") ∅ [.block "b"]), .attach root (.block "c")]
    (t.edit (.reattach 2 3)).lines 2 0 = t.lines 2 0
      ∧ (t.edit (.reattach 2 3)).lines 1 0 ≠ t.lines 1 0 := by
  decide

end Tree

end NginxConfig
