import NginxConfig.Proofs.Section.Places
import NginxConfig.Proofs.Tree.Options

/-!
# What a section adds

Two trees are compared that are alike but for one more node in the list of one container
of the second (`Inserts`). Seen from that container, or from any node above it, they are one
section with a gap, with nothing in it in the first tree and with what the node holds in
the second (`Inserts.exists_place`). What is written of them then differs by what is in the
gap (`Inserts.filled`).

Attaching a section inserts a node (`Received.inserts`). Detaching one is the same the other
way round: the tree before it is the tree after it with the node inserted
(`Forest.inserts_cut`).
-/

namespace NginxConfig

namespace Tree

open Section

variable {t t' : Tree}

theorem SameSlot.content?_eq {x : NodeId} (h : t.SameSlot t' x)
    (hs : t'.sections x = t.sections x) : t'.content? x = t.content? x := by
  rw [h, hs, content?_withSections]

/-! ## Reading back in another tree -/

mutual

/-- What is read back from a node depends on the slots below it only. -/
theorem Holds.of_agree (h : t.Forest) :
    ∀ {s : Section} {x : NodeId}, t.Holds x s →
      (∀ y, t.Within x y → t'.content? y = t.content? y) → t'.Holds x s
  | .directive _, x, hs, hsame =>
      holds_directive.mpr ((hsame x (.refl t x)).trans (holds_directive.mp hs))
  | .container _ _ _, x, hs, hsame => by
      obtain ⟨ids, hc, hall⟩ := holds_container.mp hs
      have hc' := (container?_congr (hsame x (.refl t x))).trans hc
      refine holds_container.mpr ⟨ids, hc', hall.of_agree h fun child hm y hy => hsame y ?_⟩
      have hp : t.parent? child = some x := h.parent_iff.mpr (sections_of_container? hc ▸ hm)
      exact (Within.of_parent hp (.refl t x)).trans hy

theorem HoldsAll.of_agree (h : t.Forest) :
    ∀ {ss : List Section} {ids : List NodeId}, t.HoldsAll ids ss →
      (∀ child ∈ ids, ∀ y, t.Within child y → t'.content? y = t.content? y) →
      t'.HoldsAll ids ss
  | [], [], _, _ => trivial
  | s :: rest, id :: ids, hall, hsame => by
      obtain ⟨hs, hrest⟩ := holdsAll_cons.mp hall
      exact holdsAll_cons.mpr ⟨hs.of_agree h (hsame id List.mem_cons_self),
        hrest.of_agree h fun child hm => hsame child (List.mem_cons_of_mem id hm)⟩

end

theorem Holds.lt_size {id : NodeId} {s : Section} (h : t.Holds id s) :
    id < t.size := by
  cases s with
  | directive d => exact node?_isSome.mp ⟨_, node?_of_directive (holds_directive.mp h)⟩
  | container header options sections =>
      obtain ⟨ids, hc, -⟩ := holds_container.mp h
      exact HasContainer.lt_size ⟨_, hc⟩

theorem Holds.renderNode_eq (hf : t.Forest) {id : NodeId} {s : Section}
    (h : t.Holds id s) : t.renderNode id = .ok (s.renderAt 0) := by
  rw [renderNode_of_lt h.lt_size, h.lines_eq hf, renderAt]

/-- A container that lists the same other nodes in two trees around a row of nodes of each.
If the others are drawn alike, it is the same container with a gap both times. -/
theorem Forest.exists_frame (h : t.Forest) (h' : t'.Forest) {z : NodeId} (hz : t.HasContainer z)
    (hslot : t.SameSlot t' z) {before row row' after : List NodeId}
    (hsections : t.sections z = before ++ row ++ after)
    (hsections' : t'.sections z = before ++ row' ++ after)
    (hsame : ∀ child ∈ before ++ after, t.parent? child = some z →
      ∀ y, t.Within child y → t'.content? y = t.content? y) :
    ∃ f : Section.Frame,
      (∀ ss, t.HoldsAll row ss → t.Holds z (f.fill ss))
      ∧ (∀ ss, t'.HoldsAll row' ss → t'.Holds z (f.fill ss))
      ∧ ∀ child ∈ t'.sections z, t'.depth child = t'.depth z + f.level := by
  obtain ⟨⟨header, options, sections⟩, hc⟩ := hz
  obtain rfl : t.sections z = sections := sections_of_container? hc
  have hc' : t'.container? z = some ⟨header, options, t'.sections z⟩ := hslot.container? hc
  have hread : ∀ ids, (∀ x ∈ ids, x ∈ before ++ after) →
      ∃ ss, t.HoldsAll ids ss ∧ t'.HoldsAll ids ss := fun ids hids => by
    have hparent : ∀ x ∈ ids, t.parent? x = some z := fun x hx => by
      rw [h.parent_iff, hsections]
      rcases List.mem_append.mp (hids x hx) with hb | ha
      · exact List.mem_append_left _ (List.mem_append_left _ hb)
      · exact List.mem_append_right _ ha
    obtain ⟨ss, hss⟩ := exists_holdsAll fun x hx =>
      h.exists_holds (lt_size_of_parent? (hparent x hx))
    exact ⟨ss, hss, hss.of_agree h fun x hx => hsame x (hids x hx) (hparent x hx)⟩
  obtain ⟨ssBefore, hbefore, hbefore'⟩ := hread before fun x => List.mem_append_left _
  obtain ⟨ssAfter, hafter, hafter'⟩ := hread after fun x => List.mem_append_right _
  refine ⟨⟨header, options, ssBefore, ssAfter⟩, fun ss hss => ?_, fun ss hss => ?_,
    fun child hm => ?_⟩
  · exact ⟨_, hc, hsections ▸ hafter.append (hss.append hbefore)⟩
  · exact ⟨_, hc', hsections' ▸ hafter'.append (hss.append hbefore')⟩
  · rw [h'.depth_of_parent (h'.parent_iff.mpr hm) hc']
    exact Container.innerDepth_eq _ _

/-! ## One node more -/

/-- The second tree has one node more in the list of a container. The slots of the first
hold the same in it otherwise. -/
structure Inserts (t t' : Tree) (parent id : NodeId) : Prop where
  same : ∀ x < t.size, t.SameSlot t' x
  sections_eq : ∀ x < t.size, x ≠ parent → t'.sections x = t.sections x
  gap : ∃ before after,
    t.sections parent = before ++ after ∧ t'.sections parent = before ++ [id] ++ after

theorem Received.inserts {parent : NodeId} {s : Section} (h : t.Received t' parent s)
    (hp : t.HasContainer parent) : t.Inserts t' parent t.size where
  same := h.same_old
  sections_eq := fun x hx hne => by rw [h.sections_old x hx, if_neg hne]
  gap := by
    refine ⟨t.sections parent, [], (List.append_nil _).symm, ?_⟩
    rw [h.sections_old parent hp.lt_size, if_pos rfl, List.append_nil]

theorem not_mem_of_nodup {before after : List NodeId} {id : NodeId}
    (h : (before ++ id :: after).Nodup) : id ∉ before ++ after :=
  (List.nodup_cons.mp (List.nodup_middle.mp h)).1

theorem filter_ne_of_nodup {before after : List NodeId} {id : NodeId}
    (h : (before ++ id :: after).Nodup) :
    (before ++ id :: after).filter (· ≠ id) = before ++ after := by
  have hnotin : id ∉ before ++ after := not_mem_of_nodup h
  rw [List.filter_append, List.filter_cons_of_neg (by simp), ← List.filter_append]
  refine List.filter_eq_self.mpr fun x hx => ?_
  have hne : x ≠ id := fun heq => hnotin (heq ▸ hx)
  exact decide_eq_true hne

/-- A tree has one node more than it has after the node was taken out. -/
theorem Forest.inserts_cut (h : t.Forest) {parent id : NodeId} (hp : t.parent? id = some parent) :
    (t.cut id).Inserts t parent id where
  same := fun x _ => (sameSlot_cut t id x).of_common (sameSlot_of_content? rfl)
  sections_eq := fun x _ hne => by
    have hother : t.parent? id ≠ some x := fun hx => hne (Option.some.inj (hx.symm.trans hp))
    rw [sections_cut, if_neg hother]
  gap := by
    obtain ⟨before, after, hsections⟩ := List.append_of_mem (h.parent_iff.mp hp)
    refine ⟨before, after, ?_, ?_⟩
    · rw [h.toLinked.sections_cut, hsections, filter_ne_of_nodup (hsections ▸ h.nodup parent)]
    · rw [hsections, List.append_assoc, List.singleton_append]

/-- Above the parent of a node nothing changes when the node is taken out. -/
theorem Forest.within_cut_iff (h : t.Forest) {parent id a : NodeId}
    (hp : t.parent? id = some parent) : (t.cut id).Within a parent ↔ t.Within a parent :=
  within_iff_of_agree fun y hy => by
    have hne : y ≠ id := fun heq => h.not_within_parent hp (heq ▸ hy)
    rw [parent?_cut, if_neg hne]

/-- The texts of a node in two trees, the second of which has a section more at some place
below the node, where the first has nothing. -/
structure Filled (t t' : Tree) (a : NodeId) (p : Section.Place) (s : Section) (text : String) :
    Prop where
  holds_empty : t.Holds a (p.fill [])
  holds_filled : t'.Holds a (p.fill [s])
  renderNode_empty : t.renderNode a = .ok (p.textBefore 0 ++ p.textAfter 0)
  renderNode_filled : t'.renderNode a = .ok (p.textBefore 0 ++ text ++ p.textAfter 0)

namespace Inserts

variable {parent id : NodeId}

theorem agree (hi : t.Inserts t' parent id) {x : NodeId} (hx : x < t.size)
    (hfar : ¬ t.Within x parent) {y : NodeId} (hy : t.Within x y) :
    t'.content? y = t.content? y := by
  have hlt : y < t.size := hy.lt_size hx
  have hne : y ≠ parent := fun heq => hfar (heq ▸ hy)
  exact (hi.same y hlt).content?_eq (hi.sections_eq y hlt hne)

/-- From the container upwards, every node is a section with the same gap in both trees, as
much deeper than the node as the new node is. -/
theorem exists_place (h : t.Forest) (h' : t'.Forest) (hi : t.Inserts t' parent id)
    (hp : t.HasContainer parent) {s : Section} (hs : t'.Holds id s) {a : NodeId}
    (hw : t.Within a parent) :
    ∃ p : Section.Place, t'.depth a + p.blocks = t'.depth id ∧ t.Holds a (p.fill [])
      ∧ t'.Holds a (p.fill [s]) := by
  induction hw with
  | refl =>
      obtain ⟨before, after, hsections, hsections'⟩ := hi.gap
      have hnone : t.sections parent = before ++ [] ++ after := by rw [hsections, List.append_nil]
      obtain ⟨f, hempty, hfilled, hdepth⟩ :=
        h.exists_frame h' hp (hi.same parent hp.lt_size) hnone hsections' fun child _ hchild y hy =>
          hi.agree (lt_size_of_parent? hchild) (h.not_within_parent hchild) hy
      have hm : id ∈ t'.sections parent := by rw [hsections']; simp
      exact ⟨.here f, (hdepth id hm).symm, hempty [] trivial, hfilled [s] ⟨hs, trivial⟩⟩
  | @tail y z hy hz ih =>
      obtain ⟨p, hblocks, hempty, hfilled⟩ := ih
      have hcontainer : t.HasContainer z := h.hasContainer hz
      have hne : z ≠ parent := fun heq => h.not_within_parent (heq ▸ hz) hy
      obtain ⟨before, after, hsplit⟩ := List.append_of_mem (h.parent_iff.mp hz)
      have hnotin : y ∉ before ++ after := not_mem_of_nodup (hsplit ▸ h.nodup z)
      have hsections : t.sections z = before ++ [y] ++ after := by
        rw [hsplit, List.append_assoc, List.singleton_append]
      have hsections' : t'.sections z = before ++ [y] ++ after :=
        (hi.sections_eq z hcontainer.lt_size hne).trans hsections
      -- The other sections of the container are not above the place.
      obtain ⟨f, hempty', hfilled', hdepth⟩ :=
        h.exists_frame h' hcontainer (hi.same z hcontainer.lt_size) hsections hsections'
          fun child hm hchild w hw =>
            have hother : y ≠ child := fun heq => hnotin (heq ▸ hm)
            hi.agree (lt_size_of_parent? hchild) (h.apart hother (hz.trans hchild.symm) hy) hw
      have hm : y ∈ t'.sections z := by rw [hsections']; simp
      refine ⟨.inside f p, ?_, hempty' _ ⟨hempty, trivial⟩, hfilled' _ ⟨hfilled, trivial⟩⟩
      rw [Place.blocks, ← Nat.add_assoc, ← hdepth y hm, hblocks]

/-- The new node adds its text to that of every node above it, at the level of the place. -/
theorem filled (h : t.Forest) (h' : t'.Forest) (hi : t.Inserts t' parent id)
    (hp : t.HasContainer parent) {s : Section} (hs : t'.Holds id s) {a : NodeId}
    (hw : t.Within a parent) :
    ∃ p : Section.Place, t'.depth a + p.blocks = t'.depth id
      ∧ t.Filled t' a p s (s.renderAt p.blocks) := by
  obtain ⟨p, hblocks, hempty, hfilled⟩ := hi.exists_place h h' hp hs hw
  refine ⟨p, hblocks, hempty, hfilled, ?_, ?_⟩
  · rw [hempty.renderNode_eq h, p.renderAt_fill_nil]
  · rw [hfilled.renderNode_eq h', p.renderAt_fill_singleton, Nat.zero_add]

end Inserts

/-! ## Attaching and detaching -/

theorem Forest.received_edit (h : t.Forest) {parent : NodeId} (hp : t.HasContainer parent)
    (s : Section) : t.Received (t.edit (.attach parent s)) parent s :=
  edit_attach hp s ▸ h.toLinked.received hp s

theorem Forest.edit_detach (h : t.Forest) {id : NodeId} (hid : id < t.size) :
    t.edit (.detach id) = t.cut id := by
  rw [Tree.edit, Edit.apply, h.toLinked.detach_eq_ok hid]

/-- A section that is attached adds its text at and above the container. -/
theorem Forest.filled_attach (h : t.Forest) {parent : NodeId} (hp : t.HasContainer parent)
    (s : Section) {a : NodeId} (hw : t.Within a parent) :
    let t' := t.edit (.attach parent s)
    ∃ p : Section.Place, t'.depth a + p.blocks = t'.depth t.size
      ∧ t.Filled t' a p s (s.renderAt p.blocks) := by
  intro t'
  have hreceived : t.Received t' parent s := h.received_edit hp s
  have hnew : t'.Holds t.size s := (hreceived.holds_iff s).mpr rfl
  exact (hreceived.inserts hp).filled h (h.edit _) hp hnew hw

/-- What is read back from a node is what the nodes above it lose when it is detached. -/
theorem Forest.filled_detach (h : t.Forest) {id : NodeId} {s : Section} (hs : t.Holds id s)
    {a : NodeId} (hne : a ≠ id) (hw : t.Within a id) :
    ∃ p : Section.Place, t.depth a + p.blocks = t.depth id
      ∧ (t.edit (.detach id)).Filled t a p s (s.renderAt p.blocks) := by
  obtain rfl | ⟨parent, hp, hwp⟩ := within_iff.mp hw
  · exact absurd rfl hne
  · have hparent : (t.cut id).HasContainer parent :=
      (Keeps.cut t id).hasContainer (h.hasContainer hp)
    rw [h.edit_detach hs.lt_size]
    exact (h.inserts_cut hp).filled (h.cut id) h hparent hs ((h.within_cut_iff hp).mpr hwp)

/-! ## Groups for repeated statements -/

/-- **A group for repeated statements adds these statements.** At any level the group is
written as one statement for each value, in the order of the values, and as nothing else.
Where it is part of a section it stands at a place, and the section is written as it is
without the group, with the statements in between, one level deeper for each block around
the place. In every tree that a run of edits makes, any container takes the group up, and
it is then as deep as the content of the container. From the container upwards every node
is written as before with the statements in between, and no other node is drawn anew. Where
a group stands in a tree already, the same is true of the tree after it was taken out and
the tree before. -/
theorem repeated_adds_statements (key : String) (values : List Value) :
    let g := Section.repeated key values
    let statements (depth : Nat) : String :=
      String.join (values.map fun v => (Section.directive (.ofOption key v)).renderAt depth)
    (∀ depth, g.renderAt depth = statements depth)
      ∧ (∀ whole, g ∈ whole.preorder ↔ whole = g ∨ ∃ p : Section.Place, whole = p.fill [g])
      ∧ (∀ (p : Section.Place) depth,
          (p.fill []).renderAt depth = p.textBefore depth ++ p.textAfter depth
          ∧ (p.fill [g]).renderAt depth =
              p.textBefore depth ++ statements (depth + p.blocks) ++ p.textAfter depth)
      ∧ ∀ es : List Edit,
        let t := Tree.new.run es
        t.renderNode root = .ok t.render
        ∧ (∀ parent c, t.container? parent = some c →
            let t' := t.edit (.attach parent g)
            t.attach parent g = .ok (t', t.size)
            ∧ t'.Holds t.size g
            ∧ t'.depth t.size = c.innerDepth (t'.depth parent)
            ∧ (∀ a, t.Within a parent →
                ∃ p : Section.Place, t'.depth a + p.blocks = t'.depth t.size
                  ∧ t.Filled t' a p g (statements p.blocks))
            ∧ ∀ a < t.size, ¬ t.Within a parent → t.DrawnAlike t' a)
        ∧ ∀ id, t.Holds id g →
            let t' := t.edit (.detach id)
            t.renderNode id = .ok (statements 0)
            ∧ t.detach id = .ok t'
            ∧ ∀ a, a ≠ id → t.Within a id →
                ∃ p : Section.Place, t.depth a + p.blocks = t.depth id
                  ∧ t'.Filled t a p g (statements p.blocks) := by
  intro g statements
  have hg : ∀ depth, g.renderAt depth = statements depth := renderAt_repeated key values
  refine ⟨hg, fun whole => mem_preorder_iff, fun p depth => ⟨p.renderAt_fill_nil depth, ?_⟩,
    fun es => ?_⟩
  · rw [p.renderAt_fill_singleton, hg]
  intro t
  have h : t.Forest := forest_run es
  simp only [← hg]
  refine ⟨renderNode_of_lt (root_lt_size es), fun parent c hc => ?_, fun id hid => ?_⟩
  · have hp : t.HasContainer parent := ⟨c, hc⟩
    have hreceived := h.received_edit hp g
    refine ⟨?_, (hreceived.holds_iff g).mpr rfl, ?_, fun a hw => h.filled_attach hp g hw,
      fun a ha hfar => h.drawnAlike_edit ha fun x hx => List.mem_singleton.mp hx ▸ hfar⟩
    · rw [edit_attach hp]
      exact attach_eq_ok.mpr ⟨hp, Prod.ext rfl (append_snd t parent g)⟩
    · have hslot := hreceived.same_old parent hp.lt_size
      rw [(h.edit _).depth_of_parent hreceived.parent?_new (hslot.container? hc)]
      rfl
  · refine ⟨hid.renderNode_eq h, ?_, fun a hne hw => h.filled_detach hid hne hw⟩
    rw [h.edit_detach hid.lt_size, h.toLinked.detach_eq_ok hid.lt_size]

/-- One value of three is the same again, and one is no value at all. -/
example :
    let headers := Section.repeated "add_header" [.str "a 1", .empty, .str "a 1"]
    (Tree.new.run [.attach root (.block "server"), .attach 1 headers]).render =
      "\nserver \x7b\n    add_header a 1;\n    add_header;\n    add_header a 1;\n\x7d" := by
  decide

end Tree

end NginxConfig
