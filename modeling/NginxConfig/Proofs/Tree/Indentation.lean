import NginxConfig.Proofs.Tree.Locality
import NginxConfig.Proofs.Tree.Root

/-!
# Who writes a line

A node is drawn from above: each line gets its indentation from the blocks that the
drawing has come through. `depth` counts the same blocks from below. To compare the
two, every line is drawn together with the node that writes it (`signed`), which is
the drawing as it is but for the signatures (`map_snd_signed`).

What a node has written itself can then be picked out of the drawing of any node above
it. It is what the node writes on its own, indented by as much as it is deeper
(`Forest.filter_signed`), and nobody else signs for it.
-/

namespace NginxConfig

namespace Container

/-- What a container writes before its sections. -/
def leading (c : Container) (depth : Nat) : List Line :=
  (c.header.map (Line.opening depth)).toList ++
    Section.optionLines c.options (c.innerDepth depth)

/-- What a container writes after its sections. -/
def trailing (c : Container) (depth : Nat) : List Line :=
  (c.header.map fun _ => Line.closing depth).toList

theorem enclose_options_eq (c : Container) (depth : Nat) (content : Nat → List Line) :
    (Line.enclose c.header depth fun inner =>
        Section.optionLines c.options inner ++ content inner) =
      c.leading depth ++ content (c.innerDepth depth) ++ c.trailing depth := by
  rw [c.enclose_eq, leading, trailing, List.append_assoc _ _ (content _)]

end Container

namespace Tree

/-- The lines of a node and what is below it, to some number of levels, each with the
node that writes it. -/
def signedFrom (t : Tree) : Nat → NodeId → Nat → List (NodeId × Line)
  | 0, _, _ => []
  | levels + 1, id, depth =>
    match t.node? id with
    | none => []
    | some ⟨_, .directive d⟩ => [(id, ⟨depth, d.statement⟩)]
    | some ⟨_, .container c⟩ =>
      (c.leading depth).map (id, ·) ++
        ((c.sections.filter (· ≠ id)).flatMap fun child =>
          t.signedFrom levels child (c.innerDepth depth)) ++
        (c.trailing depth).map (id, ·)

/-- The lines of a node, each with the node that writes it. -/
def signed (t : Tree) (id : NodeId) (depth : Nat) : List (NodeId × Line) :=
  t.signedFrom t.size id depth

/-- What one node writes itself of the text of another. -/
def share (t : Tree) (above id : NodeId) : List String :=
  ((t.signed above 0).filter (·.1 = id)).map (·.2.render)

/-- What a node writes itself at some depth. -/
def own (t : Tree) (id : NodeId) (depth : Nat) : List Line :=
  match t.content? id with
  | some (.directive d) => [⟨depth, d.statement⟩]
  | some (.container c) => c.leading depth ++ c.trailing depth
  | none => []

/-! ## Signed lines are the lines -/

theorem map_snd_signedFrom (t : Tree) :
    ∀ (levels : Nat) (id : NodeId) (depth : Nat),
      (t.signedFrom levels id depth).map Prod.snd = t.linesFrom levels id depth
  | 0, _, _ => rfl
  | levels + 1, id, depth => by
      rw [signedFrom, linesFrom]
      rcases t.node? id with _ | ⟨parent, content⟩
      · rfl
      · cases content with
        | directive d => rfl
        | container c =>
            have hcontent : ∀ inner, ((c.sections.filter (· ≠ id)).flatMap fun child =>
                t.signedFrom levels child inner).map Prod.snd =
                  (c.sections.filter (· ≠ id)).flatMap fun child =>
                    t.linesFrom levels child inner := fun inner => by
              rw [List.map_flatMap]
              exact List.flatMap_congr fun child _ => t.map_snd_signedFrom levels child inner
            have hself : ∀ ls : List Line, (ls.map (id, ·)).map Prod.snd = ls := fun ls => by
              rw [List.map_map]
              exact List.map_id ls
            simp only [c.enclose_options_eq, List.map_append, hcontent, hself]

theorem map_snd_signed (t : Tree) (id : NodeId) (depth : Nat) :
    (t.signed id depth).map Prod.snd = t.lines id depth :=
  t.map_snd_signedFrom t.size id depth

theorem signedFrom_directive {t : Tree} {id : NodeId} {d : Directive}
    (h : t.content? id = some (.directive d)) (levels depth : Nat) :
    t.signedFrom (levels + 1) id depth = [(id, ⟨depth, d.statement⟩)] := by
  rw [signedFrom, node?_of_directive h]

theorem signedFrom_container {t : Tree} {id : NodeId} {c : Container}
    (h : t.container? id = some c) (levels depth : Nat) :
    t.signedFrom (levels + 1) id depth =
      (c.leading depth).map (id, ·) ++
        ((c.sections.filter (· ≠ id)).flatMap fun child =>
          t.signedFrom levels child (c.innerDepth depth)) ++
        (c.trailing depth).map (id, ·) := by
  rw [signedFrom, node?_of_container h]

namespace Forest

variable {t : Tree} (h : t.Forest)

include h

theorem signed_eq_signedFrom {id : NodeId} (hid : id < t.size) (depth : Nat) :
    t.signed id depth = t.signedFrom (t.size + 1) id depth := by
  refine congrFun (h.bound_succ (f := t.signedFrom) (fun {n m id} hid ih => ?_) hid) depth
  funext depth
  rcases directive_or_container hid with ⟨d, hd⟩ | ⟨c, hc⟩
  · rw [signedFrom_directive hd, signedFrom_directive hd]
  · rw [signedFrom_container hc, signedFrom_container hc]
    congr 2
    exact List.flatMap_congr fun child hm =>
      congrFun (ih child (mem_sections_of_mem_filter hc hm)) (c.innerDepth depth)

theorem signed_directive {id : NodeId} {d : Directive}
    (hd : t.content? id = some (.directive d)) (depth : Nat) :
    t.signed id depth = [(id, ⟨depth, d.statement⟩)] := by
  have hid : id < t.size := node?_isSome.mp ⟨_, node?_of_directive hd⟩
  rw [h.signed_eq_signedFrom hid, signedFrom_directive hd]

/-- A container signs for what is around its sections. -/
theorem signed_container {id : NodeId} {c : Container} (hc : t.container? id = some c)
    (depth : Nat) :
    t.signed id depth =
      (c.leading depth).map (id, ·) ++
        (c.sections.flatMap fun child => t.signed child (c.innerDepth depth)) ++
        (c.trailing depth).map (id, ·) := by
  rw [h.signed_eq_signedFrom (HasContainer.lt_size ⟨c, hc⟩), signedFrom_container hc,
    ← sections_of_container? hc, h.filter_sections]
  rfl

/-- Whoever signs a line is at or below the node that is drawn. -/
theorem within_of_mem_signed {id : NodeId} (hid : id < t.size) :
    ∀ {depth : Nat} {p : NodeId × Line}, p ∈ t.signed id depth → t.Within id p.1 := by
  induction id using h.descend_induction with
  | step id ih =>
      intro depth p hp
      rcases directive_or_container hid with ⟨d, hd⟩ | ⟨c, hc⟩
      · rw [h.signed_directive hd, List.mem_singleton] at hp
        exact hp ▸ .refl t id
      · have hself : ∀ {ls : List Line}, p ∈ ls.map (id, ·) → t.Within id p.1 := fun hm => by
          obtain ⟨l, -, rfl⟩ := List.mem_map.mp hm
          exact .refl t id
        rw [h.signed_container hc, List.mem_append, List.mem_append] at hp
        rcases hp with (hp | hp) | hp
        · exact hself hp
        · obtain ⟨child, hm, hp⟩ := List.mem_flatMap.mp hp
          have hchild : child ∈ t.sections id := sections_of_container? hc ▸ hm
          have hparent : t.parent? child = some id := h.parent_iff.mpr hchild
          exact (Within.of_parent hparent (.refl t id)).trans
            (ih child hchild (lt_size_of_parent? hparent) hp)
        · exact hself hp

end Forest

/-! ## One node's part of the drawing -/

theorem filter_signature (id d : NodeId) (ls : List Line) :
    (ls.map (id, ·)).filter (·.1 = d) = if id = d then ls.map (id, ·) else [] := by
  split <;> simp_all

/-- If only one member of a row has anything to add, the row comes to that. -/
theorem flatMap_of_only {α β : Type} {l : List α} {f : α → List β} {x : α} (hl : l.Nodup)
    (hx : x ∈ l) (hother : ∀ y ∈ l, y ≠ x → f y = []) : l.flatMap f = f x := by
  obtain ⟨before, after, rfl⟩ := List.append_of_mem hx
  obtain ⟨hfirst, hrest⟩ := List.nodup_cons.mp (List.nodup_middle.mp hl)
  have hbefore : before.flatMap f = [] := List.flatMap_eq_nil_iff.mpr fun y hy =>
    hother y (List.mem_append_left _ hy) fun heq => hfirst (List.mem_append_left _ (heq ▸ hy))
  have hafter : after.flatMap f = [] := List.flatMap_eq_nil_iff.mpr fun y hy =>
    hother y (List.mem_append_right _ (List.mem_cons_of_mem x hy)) fun heq =>
      hfirst (List.mem_append_right _ (heq ▸ hy))
  rw [List.flatMap_append, List.flatMap_cons, hbefore, hafter, List.nil_append, List.append_nil]

namespace Forest

variable {t : Tree} (h : t.Forest)

include h

theorem filter_signed_of_not_within {a d : NodeId} (ha : a < t.size) (hw : ¬ t.Within a d)
    (depth : Nat) : (t.signed a depth).filter (·.1 = d) = [] := by
  refine List.filter_eq_nil_iff.mpr fun p hp heq => hw ?_
  exact of_decide_eq_true heq ▸ h.within_of_mem_signed ha hp

theorem depth_le_of_within {a d : NodeId} (hw : t.Within a d) : t.depth a ≤ t.depth d := by
  induction hw using Relation.ReflTransGen.head_induction_on with
  | refl => exact Nat.le_refl _
  | @head d parent hp _ ih =>
      obtain ⟨c, hc⟩ := h.hasContainer hp
      rw [h.depth_of_parent hp hc, c.innerDepth_eq]
      exact Nat.le_trans ih (Nat.le_add_right _ _)

/-- What a node is deeper than a container is made up of what a section between them
is deeper, and what the container indents its sections by. -/
theorem innerDepth_add_depth_sub {a child d : NodeId} {c : Container}
    (hp : t.parent? child = some a) (hc : t.container? a = some c) (hw : t.Within child d)
    (depth : Nat) :
    c.innerDepth depth + (t.depth d - t.depth child) = depth + (t.depth d - t.depth a) := by
  have hle := h.depth_le_of_within hw
  rw [h.depth_of_parent hp hc, c.innerDepth_eq] at hle ⊢
  rw [c.innerDepth_eq]
  omega

/-- In the drawing of any node above it, a node writes what it writes on its own,
indented by as much as it is deeper. -/
theorem filter_signed {a d : NodeId} (ha : a < t.size) (hw : t.Within a d) (depth : Nat) :
    (t.signed a depth).filter (·.1 = d) =
      (t.own d (depth + (t.depth d - t.depth a))).map (d, ·) := by
  induction a using h.descend_induction generalizing depth with
  | step a ih =>
      rcases directive_or_container ha with ⟨s, hs⟩ | ⟨c, hc⟩
      · have hnone : t.sections a = [] := sections_of_directive hs
        have heq : a = d := by
          rcases h.within_iff_sections.mp hw with heq | ⟨child, hm, -⟩
          · exact heq
          · rw [hnone] at hm
            cases hm
        subst heq
        rw [h.signed_directive hs, own, hs, Nat.sub_self, Nat.add_zero]
        exact filter_signature a a [⟨depth, s.statement⟩] |>.trans (if_pos rfl)
      · have hparent : ∀ {child}, child ∈ c.sections → t.parent? child = some a := fun hm =>
          h.parent_iff.mpr (sections_of_container? hc ▸ hm)
        rw [h.signed_container hc, List.filter_append, List.filter_append, filter_signature,
          filter_signature, List.filter_flatMap]
        by_cases heq : a = d
        · subst heq
          have hbelow : (c.sections.flatMap fun child =>
              (t.signed child (c.innerDepth depth)).filter (·.1 = a)) = [] :=
            List.flatMap_eq_nil_iff.mpr fun child hm =>
              h.filter_signed_of_not_within (lt_size_of_parent? (hparent hm))
                (h.not_within_parent (hparent hm)) _
          rw [if_pos rfl, if_pos rfl, hbelow, own, content?_eq_some_container.mpr hc, Nat.sub_self,
            Nat.add_zero, List.append_nil, List.map_append]
        · obtain heq' | ⟨child, hm, hchild⟩ := h.within_iff_sections.mp hw
          · exact absurd heq' heq
          have hm' : child ∈ c.sections := sections_of_container? hc ▸ hm
          have hnodup : c.sections.Nodup := sections_of_container? hc ▸ h.nodup a
          have hother : ∀ y ∈ c.sections, y ≠ child →
              (t.signed y (c.innerDepth depth)).filter (·.1 = d) = [] := fun y hy hne =>
            h.filter_signed_of_not_within (lt_size_of_parent? (hparent hy))
              (h.apart hne.symm ((hparent hm').trans (hparent hy).symm) hchild) _
          rw [if_neg heq, if_neg heq, List.nil_append, List.append_nil,
            flatMap_of_only hnodup hm' hother,
            ih child hm (lt_size_of_parent? (hparent hm')) hchild,
            h.innerDepth_add_depth_sub (hparent hm') hc hchild]

theorem signed_infix_of_mem {a child : NodeId} {c : Container} (hc : t.container? a = some c)
    (hm : child ∈ c.sections) (depth : Nat) :
    t.signed child (c.innerDepth depth) <:+: t.signed a depth := by
  have hrow : t.signed child (c.innerDepth depth) <:+:
      c.sections.flatMap fun child => t.signed child (c.innerDepth depth) := by
    rw [List.flatMap_def]
    exact List.infix_of_mem_flatten (List.mem_map.mpr ⟨child, hm, rfl⟩)
  rw [h.signed_container hc]
  exact hrow.trans (List.infix_append _ _ _)

/-- The drawing of a node contains that of every node below it, indented by as much
as that one is deeper. -/
theorem signed_infix {a d : NodeId} (hw : t.Within a d) (depth : Nat) :
    t.signed d (depth + (t.depth d - t.depth a)) <:+: t.signed a depth := by
  induction a using h.descend_induction generalizing depth with
  | step a ih =>
      obtain rfl | ⟨child, hm, hchild⟩ := h.within_iff_sections.mp hw
      · rw [Nat.sub_self, Nat.add_zero]
      · have hp : t.parent? child = some a := h.parent_iff.mpr hm
        obtain ⟨c, hc⟩ := h.hasContainer hp
        rw [← h.innerDepth_add_depth_sub hp hc hchild]
        exact (ih child hm hchild _).trans
          (h.signed_infix_of_mem hc (sections_of_container? hc ▸ hm) depth)

theorem share_eq {a d : NodeId} (ha : a < t.size) (hw : t.Within a d) :
    t.share a d = (t.own d (t.depth d - t.depth a)).map Line.render := by
  rw [share, h.filter_signed ha hw, Nat.zero_add, List.map_map]
  rfl

end Forest

/-! ## Every tree that edits make -/

/-- **Lines are indented as deep as their nodes are.** Take a tree that a run of edits
makes, and one of its nodes. Its text is made of lines that are signed, and only nodes
at or below it sign. The text contains that of each such node, indented by as much as
the node is deeper. What the node itself writes there is its statement, or its header,
its options and its closing brace, each on a new row and after four spaces for each
level that the node is deeper; the options get one level more exactly if there is a
header. -/
theorem indented_as_deep (es : List Edit) :
    let t := Tree.new.run es
    (∀ id depth, (t.signed id depth).map Prod.snd = t.lines id depth)
      ∧ ∀ a < t.size,
        t.renderNode a = .ok (String.join ((t.signed a 0).map fun p => p.2.render))
        ∧ (∀ d, ¬ t.Within a d → t.share a d = [])
        ∧ ∀ d, t.Within a d →
          t.depth a ≤ t.depth d
          ∧ t.signed d (t.depth d - t.depth a) <:+: t.signed a 0
          ∧ let row (more : Nat) (text : String) : String :=
              let width := 4 * (t.depth d - t.depth a + more)
              "\n" ++ String.ofList (List.replicate width ' ') ++ text
            let statement (p : String × Value) : String := (Directive.ofOption p.1 p.2).statement
            (∀ s, t.content? d = some (.directive s) → t.share a d = [row 0 s.statement])
            ∧ ∀ c, t.container? d = some c → t.share a d =
                match c.header with
                | some name =>
                  row 0 (name ++ " \x7b") ::
                    c.options.entries.map (row 1 <| statement ·) ++ [row 0 "\x7d"]
                | none => c.options.entries.map (row 0 <| statement ·) := by
  intro t
  have h : t.Forest := forest_run es
  refine ⟨t.map_snd_signed, fun a ha => ⟨?_, fun d hw => ?_, fun d hw =>
    ⟨h.depth_le_of_within hw, ?_, fun s hs => ?_, fun c hc => ?_⟩⟩⟩
  · rw [renderNode_of_lt ha, ← map_snd_signed, Line.renderAll, List.map_map]
    rfl
  · rw [share, h.filter_signed_of_not_within ha hw, List.map_nil]
  · have hinfix := h.signed_infix hw 0
    rwa [Nat.zero_add] at hinfix
  · rw [h.share_eq ha hw, own, hs]
    rfl
  · rw [h.share_eq ha hw, own, content?_eq_some_container.mpr hc]
    cases hn : c.header with
    | some name =>
        simp only [Container.leading, Container.trailing, Container.innerDepth, hn,
          Section.optionLines, Option.map_some, Option.toList_some, List.map_cons,
          List.map_append, List.map_map, List.map_nil, List.cons_append]
        rfl
    | none =>
        simp only [Container.leading, Container.trailing, Container.innerDepth, hn,
          Section.optionLines, Option.map_none, Option.toList_none, List.nil_append,
          List.append_nil, List.map_map]
        rfl

/-- A group in between changes nothing for the block in it. -/
example :
    let group : Section := .container none (.ofList [("gzip", .bool true)]) [.block "inner"]
    let t := Tree.new.run [.attach root (.container (some "outer") ∅ [group])]
    t.share 1 2 = ["\n    gzip on;"] ∧ t.share 1 3 = ["\n    inner \x7b", "\n    \x7d"] := by
  decide

end Tree

end NginxConfig
