import NginxConfig.Tree.Render
import NginxConfig.Proofs.Tree.Forest

/-!
# Lines without a bound

`linesFrom` gives up after a number of levels, which makes it defined for any
array of nodes. In a forest it never gives up: on the way down the path back to
the top grows, and no path is longer than there are slots. So the lines of a
node are given by its content and the lines of its sections, without a bound
and without the check that leaves a node out of its own sections.
-/

namespace NginxConfig.Tree

theorem node?_of_directive {t : Tree} {id : NodeId} {d : Directive}
    (h : t.content? id = some (.directive d)) : t.node? id = some ⟨t.parent? id, .directive d⟩ :=
  node?_eq_some.mpr ⟨h, rfl⟩

theorem node?_of_container {t : Tree} {id : NodeId} {c : Container}
    (h : t.container? id = some c) : t.node? id = some ⟨t.parent? id, .container c⟩ :=
  node?_eq_some.mpr ⟨content?_eq_some_container.mpr h, rfl⟩

/-- Every slot holds a directive or a container. -/
theorem directive_or_container {t : Tree} {id : NodeId} (h : id < t.size) :
    (∃ d, t.content? id = some (.directive d)) ∨ ∃ c, t.container? id = some c := by
  obtain ⟨⟨p, content⟩, hn⟩ := node?_isSome.mpr h
  have hc := (node?_eq_some.mp hn).1
  cases content with
  | directive d => exact Or.inl ⟨d, hc⟩
  | container c => exact Or.inr ⟨c, content?_eq_some_container.mp hc⟩

/-- What is left of the sections of a container without itself is in its list. -/
theorem mem_sections_of_mem_filter {t : Tree} {id child : NodeId} {c : Container}
    (hc : t.container? id = some c) (hm : child ∈ c.sections.filter (· ≠ id)) :
    child ∈ t.sections id := by
  rw [sections_of_container? hc]
  exact (List.mem_filter.mp hm).1

theorem linesFrom_directive {t : Tree} {id : NodeId} {d : Directive}
    (h : t.content? id = some (.directive d)) (levels depth : Nat) :
    t.linesFrom (levels + 1) id depth = [⟨depth, d.statement⟩] := by
  rw [linesFrom, node?_of_directive h]

theorem linesFrom_container {t : Tree} {id : NodeId} {c : Container}
    (h : t.container? id = some c) (levels depth : Nat) :
    t.linesFrom (levels + 1) id depth =
      Line.enclose c.header depth fun inner =>
        Section.optionLines c.options inner ++
          (c.sections.filter (· ≠ id)).flatMap fun child => t.linesFrom levels child inner := by
  rw [linesFrom, node?_of_container h]

namespace Forest

/-- Induction from the nodes without sections upwards. -/
theorem descend_induction {t : Tree} (h : t.Forest) {P : NodeId → Prop}
    (step : ∀ x, (∀ child ∈ t.sections x, P child) → P x) (x : NodeId) : P x := by
  induction hn : t.size - (t.path x).length using Nat.strongRecOn generalizing x with
  | ind n ih =>
      refine step x fun child hc => ?_
      have hp : t.parent? child = some x := h.parent_iff.mpr hc
      have hlen := h.length_path_le (lt_size_of_parent? hp)
      rw [h.path_of_parent hp, List.length_cons] at hlen
      refine ih _ ?_ child rfl
      rw [h.path_of_parent hp, List.length_cons]
      omega

/-- Leaving a node out of its own sections leaves nothing out. -/
theorem filter_sections {t : Tree} (h : t.Forest) (id : NodeId) :
    (t.sections id).filter (· ≠ id) = t.sections id :=
  h.filter_sections_of_ne fun hp => h.not_within_parent hp (.refl t id)

/-- A function that goes down for some levels, and depends on the sections only at
each of them, has the same result for two bounds that reach below every slot. -/
theorem bounded_congr {t : Tree} (h : t.Forest) {β : Type} {f : Nat → NodeId → β}
    (hstep : ∀ {n m id}, id < t.size → (∀ child ∈ t.sections id, f n child = f m child) →
      f (n + 1) id = f (m + 1) id) {id : NodeId} (hid : id < t.size) :
    ∀ {levels levels' : Nat}, t.size < levels + (t.path id).length →
      t.size < levels' + (t.path id).length → f levels id = f levels' id := by
  induction id using h.descend_induction with
  | step id ih =>
      intro levels levels' hl hl'
      have hlen := h.length_path_le hid
      obtain ⟨n, rfl⟩ := Nat.exists_eq_add_one.mpr (show 0 < levels by omega)
      obtain ⟨m, rfl⟩ := Nat.exists_eq_add_one.mpr (show 0 < levels' by omega)
      refine hstep hid fun child hchild => ?_
      have hp : t.parent? child = some id := h.parent_iff.mpr hchild
      have hlong : (t.path child).length = (t.path id).length + 1 := by
        rw [h.path_of_parent hp, List.length_cons]
      exact ih child hchild (lt_size_of_parent? hp) (by omega) (by omega)

/-- The number of slots is a bound that reaches below every slot. -/
theorem bound_succ {t : Tree} (h : t.Forest) {β : Type} {f : Nat → NodeId → β}
    (hstep : ∀ {n m id}, id < t.size → (∀ child ∈ t.sections id, f n child = f m child) →
      f (n + 1) id = f (m + 1) id) {id : NodeId} (hid : id < t.size) :
    f t.size id = f (t.size + 1) id := by
  have hlen : 0 < (t.path id).length := by
    rw [h.path_eq, List.length_cons]
    exact Nat.succ_pos _
  have hlow : t.size < t.size + (t.path id).length := Nat.lt_add_of_pos_right hlen
  have hhigh : t.size < t.size + 1 + (t.path id).length := by omega
  exact h.bounded_congr (f := f) hstep hid hlow hhigh

theorem lines_eq_linesFrom {t : Tree} (h : t.Forest) {id : NodeId} (hid : id < t.size)
    (depth : Nat) : t.lines id depth = t.linesFrom (t.size + 1) id depth := by
  refine congrFun (h.bound_succ (f := t.linesFrom) (fun {n m id} hid ih => ?_) hid) depth
  funext depth
  rcases directive_or_container hid with ⟨d, hd⟩ | ⟨c, hc⟩
  · rw [linesFrom_directive hd, linesFrom_directive hd]
  · rw [linesFrom_container hc, linesFrom_container hc]
    congr 1
    funext inner
    congr 1
    exact List.flatMap_congr fun child hm =>
      congrFun (ih child (mem_sections_of_mem_filter hc hm)) inner

theorem lines_directive {t : Tree} (h : t.Forest) {id : NodeId} {d : Directive}
    (hd : t.content? id = some (.directive d)) (depth : Nat) :
    t.lines id depth = [⟨depth, d.statement⟩] := by
  have hid : id < t.size := node?_isSome.mp ⟨_, node?_of_directive hd⟩
  rw [h.lines_eq_linesFrom hid, linesFrom_directive hd]

/-- The lines of a container are its own, with those of its sections inside. -/
theorem lines_container {t : Tree} (h : t.Forest) {id : NodeId} {c : Container}
    (hc : t.container? id = some c) (depth : Nat) :
    t.lines id depth =
      Line.enclose c.header depth fun inner =>
        Section.optionLines c.options inner ++
          c.sections.flatMap fun child => t.lines child inner := by
  rw [h.lines_eq_linesFrom (HasContainer.lt_size ⟨c, hc⟩), linesFrom_container hc,
    ← sections_of_container? hc, h.filter_sections]
  rfl

end Forest

end NginxConfig.Tree
