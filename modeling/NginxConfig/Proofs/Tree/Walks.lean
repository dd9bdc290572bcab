import Mathlib.Logic.Function.Iterate
import NginxConfig.Cursor
import NginxConfig.Proofs.Tree.Lines

/-!
# Walks end

The walks of a tree are stated here as they are run, without a bound: a loop up
the parents is a `Search` or a `Count`, and the recursion down the sections is
a `Renders`. Each is the relation between where a run starts and what it has
done when it is over, so that a run which goes on forever, or asks for a slot
that is not there, is related to nothing.

In a forest every walk is related to exactly what the bounded functions
compute. The walks down visit every slot below their starts, and none twice,
because nodes of the same parent share nothing below them (`Forest.apart`).
-/

namespace NginxConfig

namespace Tree

/-! ## Up -/

/-- The loop that looks for `ancestor` on the way up, and its answer. -/
inductive Search (t : Tree) (ancestor : NodeId) : Option NodeId → Bool → Prop where
  | over : Search t ancestor none false
  | found : Search t ancestor (some ancestor) true
  | up {id : NodeId} {answer : Bool} (hne : id ≠ ancestor)
      (rest : Search t ancestor (t.parent? id) answer) : Search t ancestor (some id) answer

/-- The loop that counts blocks on the way up. It looks into every slot that it
passes. -/
inductive Count (t : Tree) : Option NodeId → Nat → Prop where
  | over : Count t none 0
  | up {id : NodeId} {n : Node} {count : Nat} (slot : t.node? id = some n)
      (rest : Count t (t.parent? id) count) :
      Count t (some id) (if t.isBlock id then count + 1 else count)

namespace Forest

theorem search_iff {t : Tree} (h : t.Forest) {ancestor x : NodeId} {answer : Bool} :
    t.Search ancestor (some x) answer ↔ answer = t.isWithin ancestor x := by
  induction x using h.climb_induction with
  | step x ih =>
      rw [isWithin, h.path_eq, List.contains_cons]
      by_cases hx : x = ancestor
      · subst hx
        rw [beq_self_eq_true, Bool.true_or]
        refine ⟨fun hs => ?_, fun heq => heq ▸ .found⟩
        cases hs with
        | found => rfl
        | up hne rest => exact absurd rfl hne
      · have hup : t.Search ancestor (some x) answer ↔
            t.Search ancestor (t.parent? x) answer := by
          refine ⟨fun hs => ?_, .up hx⟩
          cases hs with
          | found => exact absurd rfl hx
          | up hne rest => exact rest
        rw [hup, beq_eq_false_iff_ne.mpr (Ne.symm hx), Bool.false_or]
        cases hp : t.parent? x with
        | none =>
            refine ⟨fun hs => ?_, fun heq => heq ▸ .over⟩
            cases hs
            rfl
        | some p => exact ih p hp

theorem count_iff {t : Tree} (h : t.Forest) {x : NodeId} (hx : x < t.size) {count : Nat} :
    t.Count (some x) count ↔ count = (t.path x).countP t.isBlock := by
  induction x using h.climb_induction generalizing count with
  | step x ih =>
      rw [h.path_eq, List.countP_cons]
      -- What the loop counts above `x`.
      have habove : ∀ n, t.Count (t.parent? x) n ↔
          n = (((t.parent? x).map t.path).getD []).countP t.isBlock := fun n => by
        cases hp : t.parent? x with
        | none =>
            refine ⟨fun hc => ?_, fun heq => heq ▸ .over⟩
            cases hc
            rfl
        | some p => exact ih p hp (h.hasContainer hp).lt_size
      have hadd : ∀ n : Nat, (if t.isBlock x then n + 1 else n) =
          n + if t.isBlock x then 1 else 0 :=
        fun n => by split <;> rfl
      constructor
      · intro hc
        cases hc with
        | up slot rest => rw [(habove _).mp rest, hadd]
      · rintro rfl
        obtain ⟨n, hn⟩ := node?_isSome.mpr hx
        rw [← hadd]
        exact .up hn ((habove _).mpr rfl)

theorem count_depth_iff {t : Tree} (h : t.Forest) (id : NodeId) {count : Nat} :
    t.Count (t.parent? id) count ↔ count = t.depth id := by
  rw [depth, h.path_eq, List.drop_one, List.tail_cons]
  cases hp : t.parent? id with
  | none =>
      refine ⟨fun hc => ?_, fun heq => heq ▸ .over⟩
      cases hc
      rfl
  | some p => exact h.count_iff (h.hasContainer hp).lt_size

/-- The path of a node lists where a climb of so many steps arrives. -/
theorem getElem?_path {t : Tree} (h : t.Forest) (n : Nat) (x : NodeId) :
    (t.path x)[n]? = (Option.bind · t.parent?)^[n] (some x) := by
  induction n generalizing x with
  | zero => rw [h.path_eq]; rfl
  | succ n ih =>
      have hnone : (Option.bind · t.parent?)^[n] none = none :=
        Function.iterate_fixed rfl n
      rw [h.path_eq, List.getElem?_cons_succ, Function.iterate_succ_apply, Option.bind_some]
      cases hp : t.parent? x with
      | none => exact hnone.symm
      | some p => exact ih p

end Forest

theorem length_pathFrom_le_steps {t : Tree} :
    ∀ (steps : Nat) (x : NodeId), (t.pathFrom steps x).length ≤ steps
  | 0, _ => Nat.le_refl 0
  | steps + 1, x => by
      rw [pathFrom]
      cases t.parent? x with
      | none => exact Nat.succ_le_succ (Nat.zero_le steps)
      | some p => exact Nat.succ_le_succ (length_pathFrom_le_steps steps p)

namespace Forest

/-- Every climb ends at a node without a parent, within the number of slots. -/
theorem exists_top {t : Tree} (h : t.Forest) (x : NodeId) :
    ∃ steps ≤ t.size, ∃ top, (Option.bind · t.parent?)^[steps] (some x) = some top
      ∧ t.parent? top = none ∧ t.Within top x := by
  have hlen : (t.path x).length ≤ t.size + 1 := length_pathFrom_le_steps (t.size + 1) x
  have hne : t.path x ≠ [] := by
    rw [h.path_eq]
    exact List.cons_ne_nil _ _
  have hpos : 0 < (t.path x).length := List.length_pos_iff.mpr hne
  obtain ⟨steps, hsteps⟩ := Nat.exists_eq_add_one.mpr hpos
  have hlast : (t.path x)[steps]? = some ((t.path x).getLast hne) := by
    rw [List.getLast_eq_getElem, List.getElem?_eq_getElem (by omega)]
    simp only [hsteps, Nat.add_sub_cancel]
  refine ⟨steps, by omega, (t.path x).getLast hne, ?_, ?_, h.mem_path.mp (List.getLast_mem hne)⟩
  · rw [← h.getElem?_path, hlast]
  · have hend : (t.path x)[steps + 1]? = none := List.getElem?_eq_none (by omega)
    rw [h.getElem?_path, Function.iterate_succ_apply', ← h.getElem?_path, hlast] at hend
    exact hend

theorem ascend_eq_nowhere {t : Tree} (h : t.Forest) (c : Cursor) {n : Nat} (hn : t.size < n) :
    (Cursor.ascend · t)^[n] c = .nowhere := by
  have hstep : Function.Semiconj Cursor.current (Cursor.ascend · t) (Option.bind · t.parent?) :=
    fun _ => rfl
  have hcur : ((Cursor.ascend · t)^[n] c).current = none := by
    rw [(hstep.iterate_right n).eq c]
    cases c.current with
    | none => exact Function.iterate_fixed rfl n
    | some x =>
        rw [← h.getElem?_path]
        have hlen : (t.path x).length ≤ t.size + 1 := length_pathFrom_le_steps (t.size + 1) x
        exact List.getElem?_eq_none (by omega)
  exact congrArg Cursor.mk hcur

end Forest

/-! ## Down -/

/-- The nodes without a parent: the root, and whatever has been detached. -/
def tops (t : Tree) : List NodeId :=
  (List.range t.size).filter fun id => t.parent? id = none

theorem mem_tops {t : Tree} {id : NodeId} : id ∈ t.tops ↔ id < t.size ∧ t.parent? id = none := by
  rw [tops, List.mem_filter, List.mem_range, decide_eq_true_iff]

end Tree

/-- The level of what a container encloses. -/
def Container.innerDepth (c : Container) (depth : Nat) : Nat :=
  match c.header with
  | some _ => depth + 1
  | none => depth

/-- A header stands around the content as one line before it and one behind it. -/
theorem Container.enclose_eq (c : Container) (depth : Nat) (content : Nat → List Line) :
    Line.enclose c.header depth content =
      (c.header.map (Line.opening depth)).toList ++ content (c.innerDepth depth) ++
        (c.header.map fun _ => Line.closing depth).toList := by
  rw [innerDepth]
  cases c.header <;> simp [Line.enclose]

namespace Tree

/-- The recursion that renders a row of nodes, with the slots that it enters,
in order, and the lines that it writes. -/
inductive Renders (t : Tree) : List NodeId → Nat → List NodeId → List Line → Prop where
  | done {depth : Nat} : Renders t [] depth [] []
  | directive {id : NodeId} {rest : List NodeId} {depth : Nat} {visited : List NodeId}
      {lines : List Line} {parent : Option NodeId} {d : Directive}
      (slot : t.node? id = some ⟨parent, .directive d⟩)
      (next : Renders t rest depth visited lines) :
      Renders t (id :: rest) depth (id :: visited) (⟨depth, d.statement⟩ :: lines)
  | container {id : NodeId} {rest : List NodeId} {depth : Nat} {below visited : List NodeId}
      {content lines : List Line} {parent : Option NodeId} {c : Container}
      (slot : t.node? id = some ⟨parent, .container c⟩)
      (inside : Renders t (c.sections.filter (· ≠ id)) (c.innerDepth depth) below content)
      (next : Renders t rest depth visited lines) :
      Renders t (id :: rest) depth (id :: (below ++ visited))
        ((Line.enclose c.header depth fun inner =>
          Section.optionLines c.options inner ++ content) ++ lines)

theorem enclose_congr {c : Container} {depth : Nat} {f g : Nat → List Line}
    (h : f (c.innerDepth depth) = g (c.innerDepth depth)) :
    Line.enclose c.header depth f = Line.enclose c.header depth g := by
  rw [c.enclose_eq, c.enclose_eq, h]

namespace Renders

/-- A run is determined by where it starts. -/
theorem unique {t : Tree} {ids : List NodeId} {depth : Nat} {visited visited' : List NodeId}
    {lines lines' : List Line} (h : t.Renders ids depth visited lines)
    (h' : t.Renders ids depth visited' lines') : visited = visited' ∧ lines = lines' := by
  induction h generalizing visited' lines' with
  | done =>
      cases h'
      exact ⟨rfl, rfl⟩
  | directive slot next ih =>
      cases h' with
      | directive slot' next' =>
          obtain ⟨-, hd⟩ := Node.mk.inj (Option.some.inj (slot.symm.trans slot'))
          obtain rfl := Content.directive.inj hd
          obtain ⟨rfl, rfl⟩ := ih next'
          exact ⟨rfl, rfl⟩
      | container slot' _ _ =>
          obtain ⟨-, hd⟩ := Node.mk.inj (Option.some.inj (slot.symm.trans slot'))
          cases hd
  | container slot inside next ihi ihn =>
      cases h' with
      | directive slot' _ =>
          obtain ⟨-, hc⟩ := Node.mk.inj (Option.some.inj (slot.symm.trans slot'))
          cases hc
      | container slot' inside' next' =>
          obtain ⟨-, hc⟩ := Node.mk.inj (Option.some.inj (slot.symm.trans slot'))
          obtain rfl := Content.container.inj hc
          obtain ⟨rfl, rfl⟩ := ihi inside'
          obtain ⟨rfl, rfl⟩ := ihn next'
          exact ⟨rfl, rfl⟩

/-- If each node of a row can be put in front of a run, there is a run of the row. -/
theorem row {t : Tree} {depth : Nat} :
    ∀ {ids : List NodeId},
      (∀ id ∈ ids, ∀ {rest visited lines}, t.Renders rest depth visited lines →
        ∃ below, t.Renders (id :: rest) depth (id :: (below ++ visited))
          (t.lines id depth ++ lines)) →
      ∃ visited, t.Renders ids depth visited (ids.flatMap (t.lines · depth))
  | [], _ => ⟨[], .done⟩
  | id :: ids, h => by
      obtain ⟨visited, hrow⟩ := row fun x hx => h x (List.mem_cons_of_mem id hx)
      obtain ⟨below, hcons⟩ := h id List.mem_cons_self hrow
      exact ⟨_, hcons⟩

end Renders

namespace Forest

/-- No slot below a slot is missing, and none is below itself, so a run down from
there comes to its end. -/
theorem renders_cons {t : Tree} (h : t.Forest) {id : NodeId} (hid : id < t.size) {depth : Nat}
    {rest visited : List NodeId} {lines : List Line} (hr : t.Renders rest depth visited lines) :
    ∃ below, t.Renders (id :: rest) depth (id :: (below ++ visited))
      (t.lines id depth ++ lines) := by
  induction id using h.descend_induction generalizing depth rest visited lines with
  | step id ih =>
      rcases directive_or_container hid with ⟨d, hd⟩ | ⟨c, hc⟩
      · rw [h.lines_directive hd]
        exact ⟨[], .directive (node?_of_directive hd) hr⟩
      · have hslots : ∀ child ∈ c.sections, child ∈ t.sections id ∧ child < t.size :=
          fun child hm => by
            rw [← sections_of_container? hc] at hm
            exact ⟨hm, lt_size_of_parent? (h.parent_iff.mpr hm)⟩
        have hself : c.sections.filter (· ≠ id) = c.sections := by
          rw [← sections_of_container? hc]
          exact h.filter_sections id
        obtain ⟨below, hbelow⟩ := @Renders.row t (c.innerDepth depth) c.sections
          fun child hm _ _ _ hr => ih child (hslots child hm).1 (hslots child hm).2 hr
        refine ⟨below, ?_⟩
        have hlines : t.lines id depth = Line.enclose c.header depth fun inner =>
            Section.optionLines c.options inner ++
              c.sections.flatMap (t.lines · (c.innerDepth depth)) := by
          rw [h.lines_container hc]
          exact enclose_congr rfl
        rw [hlines]
        exact .container (node?_of_container hc) (hself.symm ▸ hbelow) hr

/-- What lies below a node is below one of its sections. -/
theorem within_iff_sections {t : Tree} (h : t.Forest) {id x : NodeId} :
    t.Within id x ↔ id = x ∨ ∃ child ∈ t.sections id, t.Within child x := by
  constructor
  · intro hw
    rcases Relation.ReflTransGen.cases_tail hw with rfl | ⟨child, hc, hp⟩
    · exact Or.inl rfl
    · exact Or.inr ⟨child, h.parent_iff.mp hp, hc⟩
  · rintro (rfl | ⟨child, hm, hc⟩)
    · exact .refl t _
    · exact (Within.of_parent (h.parent_iff.mpr hm) (.refl t id)).trans hc

/-- Nodes of the same parent, or of none, share nothing below them. -/
theorem apart {t : Tree} (h : t.Forest) {a b x : NodeId} (hab : a ≠ b)
    (hp : t.parent? a = t.parent? b) (ha : t.Within a x) : ¬ t.Within b x := by
  have hfar : ∀ {a b : NodeId}, a ≠ b → t.parent? a = t.parent? b → ¬ t.Within a b := by
    intro a b hab hp hw
    rcases within_iff.mp hw with rfl | ⟨p, hb, hwp⟩
    · exact hab rfl
    · exact h.not_within_parent (hp.trans hb) hwp
  intro hb
  -- The climb from `x` passes both, and whichever it meets last is above the other.
  have hunique : Relator.RightUnique fun child parent => t.parent? child = some parent :=
    fun _ _ _ hy hz => Option.some.inj (hy.symm.trans hz)
  rcases Relation.ReflTransGen.total_of_right_unique hunique ha hb with hw | hw
  · exact hfar (Ne.symm hab) hp.symm hw
  · exact hfar hab hp hw

theorem mem_visited {t : Tree} (h : t.Forest) {ids : List NodeId} {depth : Nat}
    {visited : List NodeId} {lines : List Line} (hr : t.Renders ids depth visited lines)
    {x : NodeId} : x ∈ visited ↔ ∃ id ∈ ids, t.Within id x := by
  induction hr with
  | done => simp
  | @directive id rest _ _ _ _ d slot next ih =>
      have hnone : t.sections id = [] := sections_of_directive (node?_eq_some.mp slot).1
      rw [List.mem_cons, ih, List.exists_mem_cons_iff, h.within_iff_sections, hnone]
      simp [eq_comm]
  | @container id rest _ _ _ _ _ _ c slot inside next ihi ihn =>
      have hc : t.sections id = c.sections :=
        sections_of_container? (content?_eq_some_container.mp (node?_eq_some.mp slot).1)
      rw [List.mem_cons, List.mem_append, ihi, ihn, ← hc, h.filter_sections,
        List.exists_mem_cons_iff, h.within_iff_sections, or_assoc, eq_comm]

/-- What follows a node in a row of nodes of one parent enters no slot below it. -/
theorem not_mem_visited {t : Tree} (h : t.Forest) {id x : NodeId} {rest : List NodeId}
    {depth : Nat} {visited : List NodeId} {lines : List Line}
    (hr : t.Renders rest depth visited lines) (hid : id ∉ rest) {parent : Option NodeId}
    (hp : ∀ a ∈ id :: rest, t.parent? a = parent) (hw : t.Within id x) : x ∉ visited := by
  intro hx
  obtain ⟨b, hb, hwb⟩ := (h.mem_visited hr).mp hx
  have hne : id ≠ b := fun heq => hid (heq ▸ hb)
  refine h.apart hne ?_ hw hwb
  rw [hp id List.mem_cons_self, hp b (List.mem_cons_of_mem id hb)]

/-- A run down from nodes of one parent, or of none, enters no slot twice. -/
theorem nodup_visited {t : Tree} (h : t.Forest) {ids : List NodeId} {depth : Nat}
    {visited : List NodeId} {lines : List Line} (hr : t.Renders ids depth visited lines)
    (hn : ids.Nodup) {parent : Option NodeId} (hp : ∀ id ∈ ids, t.parent? id = parent) :
    visited.Nodup := by
  induction hr generalizing parent with
  | done => exact List.nodup_nil
  | @directive id rest _ visited _ _ d slot next ih =>
      obtain ⟨hid, hrest⟩ := List.nodup_cons.mp hn
      have htail : visited.Nodup := ih hrest fun a ha => hp a (List.mem_cons_of_mem id ha)
      exact List.nodup_cons.mpr ⟨h.not_mem_visited next hid hp (.refl t id), htail⟩
  | @container id rest _ below visited _ _ _ c slot inside next ihi ihn =>
      obtain ⟨hid, hrest⟩ := List.nodup_cons.mp hn
      have hc : c.sections = t.sections id :=
        (sections_of_container? (content?_eq_some_container.mp (node?_eq_some.mp slot).1)).symm
      rw [hc, h.filter_sections] at inside ihi
      have hbelow : ∀ x ∈ below, ∃ child, t.parent? child = some id ∧ t.Within child x :=
        fun x hx => by
          obtain ⟨child, hm, hw⟩ := (h.mem_visited inside).mp hx
          exact ⟨child, h.parent_iff.mpr hm, hw⟩
      refine List.nodup_cons.mpr ⟨fun hm => ?_, List.nodup_append.mpr ⟨?_, ?_, ?_⟩⟩
      · rcases List.mem_append.mp hm with hm | hm
        · obtain ⟨child, hchild, hw⟩ := hbelow id hm
          exact h.not_within_parent hchild hw
        · exact h.not_mem_visited next hid hp (.refl t id) hm
      · exact ihi (h.nodup id) fun a ha => h.parent_iff.mpr ha
      · exact ihn hrest fun a ha => hp a (List.mem_cons_of_mem id ha)
      · rintro x hx y hy rfl
        obtain ⟨child, hchild, hw⟩ := hbelow x hx
        have hwx : t.Within id x := (Within.of_parent hchild (.refl t id)).trans hw
        exact h.not_mem_visited next hid hp hwx hy

/-- A walk down from slots comes to its end in one way. -/
theorem exists_renders_iff {t : Tree} (h : t.Forest) {ids : List NodeId}
    (hids : ∀ id ∈ ids, id < t.size) (depth : Nat) :
    ∃ visited, ∀ visited' lines, t.Renders ids depth visited' lines ↔
      visited' = visited ∧ lines = ids.flatMap (t.lines · depth) := by
  obtain ⟨visited, hr⟩ := @Renders.row t depth ids fun id hid _ _ _ hr =>
    h.renders_cons (hids id hid) hr
  refine ⟨visited, fun visited' lines => ⟨fun hr' => hr'.unique hr, ?_⟩⟩
  rintro ⟨rfl, rfl⟩
  exact hr

/-- Every slot is below exactly one node without a parent. -/
theorem perm_of_renders_tops {t : Tree} (h : t.Forest) {depth : Nat} {visited : List NodeId}
    {lines : List Line} (hr : t.Renders t.tops depth visited lines) :
    visited.Perm (List.range t.size) := by
  have hnodup : visited.Nodup :=
    h.nodup_visited hr (List.nodup_range.filter _) fun id hid => (mem_tops.mp hid).2
  refine (List.perm_ext_iff_of_nodup hnodup List.nodup_range).mpr fun x => ?_
  rw [h.mem_visited hr, List.mem_range]
  constructor
  · rintro ⟨top, htop, hw⟩
    rcases within_iff.mp hw with rfl | ⟨p, hp, -⟩
    · exact (mem_tops.mp htop).1
    · exact lt_size_of_parent? hp
  · intro hx
    obtain ⟨-, -, top, -, hnone, hw⟩ := h.exists_top x
    exact ⟨top, mem_tops.mpr ⟨h.lt_size_of_within hw hx, hnone⟩, hw⟩

end Forest

/-- **Walks end.** In every tree that a run of edits makes, a climb arrives at a
node without a parent within as many steps as there are slots, and with it the
search for an ancestor, the count of depth and a cursor that keeps ascending.
The walk down from all nodes without a parent visits every slot once, and the
walk down from one slot visits what is below it once. No walk asks for a slot
that is not there. -/
theorem walks_end (es : List Edit) :
    let t := Tree.new.run es
    (∀ id, ∃ steps ≤ t.size, ∃ top,
        (Option.bind · t.parent?)^[steps] (some id) = some top ∧ t.parent? top = none)
      ∧ (∀ ancestor id answer,
          t.Search ancestor (some id) answer ↔ answer = t.isWithin ancestor id)
      ∧ (∀ id count, t.Count (t.parent? id) count ↔ count = t.depth id)
      ∧ (∀ c : Cursor, ∀ n > t.size, (Cursor.ascend · t)^[n] c = .nowhere)
      ∧ (∀ depth, ∃ visited,
          (∀ visited' lines, t.Renders t.tops depth visited' lines ↔
            visited' = visited ∧ lines = t.tops.flatMap (t.lines · depth))
            ∧ visited.Perm (List.range t.size))
      ∧ (∀ id < t.size, ∀ depth, ∃ visited,
          (∀ visited' lines, t.Renders [id] depth visited' lines ↔
            visited' = visited ∧ lines = t.lines id depth)
            ∧ visited.Nodup
            ∧ ∀ x, x ∈ visited ↔ t.Within id x)
      ∧ ∀ id, t.size ≤ id → t.renderNode id = .error (.unknownNode id) := by
  intro t
  have h : t.Forest := forest_run es
  refine ⟨fun id => ?_, fun _ _ _ => h.search_iff, fun id _ => h.count_depth_iff id,
    fun c n hn => h.ascend_eq_nowhere c hn, fun depth => ?_, fun id hid depth => ?_,
    fun id hid => ?_⟩
  · obtain ⟨steps, hle, top, hclimb, htop, -⟩ := h.exists_top id
    exact ⟨steps, hle, top, hclimb, htop⟩
  · obtain ⟨visited, hiff⟩ := h.exists_renders_iff (fun id hid => (mem_tops.mp hid).1) depth
    exact ⟨visited, hiff, h.perm_of_renders_tops ((hiff _ _).mpr ⟨rfl, rfl⟩)⟩
  · have hone : ∀ a ∈ [id], a = id := fun a ha => List.mem_singleton.mp ha
    obtain ⟨visited, hiff⟩ := h.exists_renders_iff (fun a ha => hone a ha ▸ hid) depth
    have hr := (hiff _ _).mpr ⟨rfl, rfl⟩
    rw [List.flatMap_singleton] at hiff
    refine ⟨visited, hiff, ?_, fun x => by simp [h.mem_visited hr]⟩
    exact h.nodup_visited hr (List.nodup_singleton id) fun a ha => congrArg t.parent? (hone a ha)
  · rw [renderNode, node, node?_eq_none.mpr hid]
    rfl

end Tree

end NginxConfig
