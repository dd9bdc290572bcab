import NginxConfig.Proofs.Tree.Indentation

/-!
# Places in a section

A place is a gap between the sections of a container, which may be inside of other
containers. Whatever is put there, the containers around it write the same lines before
it and after it, and it is written itself as many levels deeper as there are blocks among
them (`Place.lines_fill`). The parts of a section are what stands at its places
(`mem_preorder_iff`).

A group for repeated statements is two levels of groups. Both leave its content at the
level of the group, and there are no two statements in one table of options, so that none
of them replaces another (`renderAt_repeated`).
-/

namespace NginxConfig

theorem Line.renderAll_append (ls ls' : List Line) :
    renderAll (ls ++ ls') = renderAll ls ++ renderAll ls' := by
  rw [renderAll, List.map_append, String.join_append, renderAll, renderAll]

namespace Section

/-- A container with a gap between its sections. -/
structure Frame where
  header : Option String
  options : Options
  before : List Section
  after : List Section

namespace Frame

/-- The container with some sections in the gap. -/
def fill (f : Frame) (ss : List Section) : Section :=
  .container f.header f.options (f.before ++ ss ++ f.after)

/-- The container without any sections. -/
def shell (f : Frame) : Container :=
  ⟨f.header, f.options, []⟩

/-- How much deeper than the container the gap is: a block indents its content, and a
group does not. -/
def level (f : Frame) : Nat :=
  if f.header.isSome then 1 else 0

def linesBefore (f : Frame) (depth : Nat) : List Line :=
  f.shell.leading depth ++ linesOfAll f.before (depth + f.level)

def linesAfter (f : Frame) (depth : Nat) : List Line :=
  linesOfAll f.after (depth + f.level) ++ f.shell.trailing depth

end Frame

theorem linesOfAll_append (ss ss' : List Section) (depth : Nat) :
    linesOfAll (ss ++ ss') depth = linesOfAll ss depth ++ linesOfAll ss' depth := by
  rw [linesOfAll_eq_flatMap, List.flatMap_append, ← linesOfAll_eq_flatMap, ← linesOfAll_eq_flatMap]

theorem Frame.lines_fill (f : Frame) (ss : List Section) (depth : Nat) :
    (f.fill ss).lines depth =
      f.linesBefore depth ++ linesOfAll ss (depth + f.level) ++ f.linesAfter depth := by
  have hinner : f.shell.innerDepth depth = depth + f.level := f.shell.innerDepth_eq depth
  have hlines : (f.fill ss).lines depth =
      f.shell.leading depth ++ linesOfAll (f.before ++ ss ++ f.after) (depth + f.level) ++
        f.shell.trailing depth := by
    rw [← hinner, fill, lines]
    exact f.shell.enclose_options_eq depth (linesOfAll (f.before ++ ss ++ f.after))
  rw [hlines, linesOfAll_append, linesOfAll_append, linesBefore, linesAfter]
  simp only [List.append_assoc]

/-- A gap in a container, or in one of its sections. -/
inductive Place where
  | here (f : Frame)
  | inside (f : Frame) (p : Place)

namespace Place

/-- The section with some sections in the gap. -/
def fill : Place → List Section → Section
  | here f, ss => f.fill ss
  | inside f p, ss => f.fill [p.fill ss]

/-- The number of blocks around the gap. -/
def blocks : Place → Nat
  | here f => f.level
  | inside f p => f.level + p.blocks

def linesBefore : Place → Nat → List Line
  | here f, depth => f.linesBefore depth
  | inside f p, depth => f.linesBefore depth ++ p.linesBefore (depth + f.level)

def linesAfter : Place → Nat → List Line
  | here f, depth => f.linesAfter depth
  | inside f p, depth => p.linesAfter (depth + f.level) ++ f.linesAfter depth

/-- The text that the containers around the gap write before it. -/
def textBefore (p : Place) (depth : Nat) : String :=
  Line.renderAll (p.linesBefore depth)

/-- The text that the containers around the gap write after it. -/
def textAfter (p : Place) (depth : Nat) : String :=
  Line.renderAll (p.linesAfter depth)

theorem lines_fill (p : Place) (ss : List Section) (depth : Nat) :
    (p.fill ss).lines depth =
      p.linesBefore depth ++ linesOfAll ss (depth + p.blocks) ++ p.linesAfter depth := by
  induction p generalizing depth with
  | here f => exact f.lines_fill ss depth
  | inside f p ih =>
      rw [fill, f.lines_fill, linesOfAll, linesOfAll, List.append_nil, ih, linesBefore, linesAfter,
        blocks, Nat.add_assoc]
      simp only [List.append_assoc]

theorem renderAt_fill (p : Place) (ss : List Section) (depth : Nat) :
    (p.fill ss).renderAt depth =
      p.textBefore depth ++ Line.renderAll (linesOfAll ss (depth + p.blocks)) ++
        p.textAfter depth := by
  rw [renderAt, lines_fill, Line.renderAll_append, Line.renderAll_append, textBefore, textAfter]

theorem renderAt_fill_nil (p : Place) (depth : Nat) :
    (p.fill []).renderAt depth = p.textBefore depth ++ p.textAfter depth := by
  have hnone : Line.renderAll (linesOfAll [] (depth + p.blocks)) = "" := rfl
  rw [renderAt_fill, hnone, String.append_empty]

theorem renderAt_fill_singleton (p : Place) (s : Section) (depth : Nat) :
    (p.fill [s]).renderAt depth =
      p.textBefore depth ++ s.renderAt (depth + p.blocks) ++ p.textAfter depth := by
  rw [renderAt_fill, linesOfAll, linesOfAll, List.append_nil, renderAt]

end Place

/-! ## Parts and places -/

theorem preorderOfAll_eq_flatMap (ss : List Section) :
    preorderOfAll ss = ss.flatMap preorder := by
  induction ss with
  | nil => rfl
  | cons s rest ih => rw [preorderOfAll, ih, List.flatMap_cons]

theorem mem_preorder_self (s : Section) : s ∈ s.preorder := by
  cases s with
  | directive d => exact List.mem_singleton_self _
  | container header options sections => exact List.mem_cons_self

theorem Frame.mem_preorder_fill {f : Frame} {s part : Section} (h : part ∈ s.preorder) :
    part ∈ (f.fill [s]).preorder := by
  refine List.mem_cons_of_mem _ ?_
  rw [preorderOfAll_eq_flatMap]
  refine List.mem_flatMap.mpr ⟨s, ?_, h⟩
  exact List.mem_append_left _ (List.mem_append_right _ (List.mem_singleton_self s))

theorem Place.mem_preorder_fill (p : Place) (part : Section) : part ∈ (p.fill [part]).preorder := by
  induction p with
  | here f => exact Frame.mem_preorder_fill (mem_preorder_self part)
  | inside f p ih => exact Frame.mem_preorder_fill ih

mutual

theorem eq_fill_of_mem_preorder {part : Section} :
    ∀ {whole : Section}, part ∈ whole.preorder →
      whole = part ∨ ∃ p : Place, whole = p.fill [part]
  | .directive _, h => Or.inl (List.mem_singleton.mp h).symm
  | .container header options sections, h => by
      rcases List.mem_cons.mp h with rfl | h
      · exact Or.inl rfl
      · obtain ⟨before, s, after, rfl, hs⟩ := exists_of_mem_preorderOfAll h
        let f : Frame := ⟨header, options, before, after⟩
        rcases hs with rfl | ⟨p, rfl⟩
        · exact Or.inr ⟨.here f, rfl⟩
        · exact Or.inr ⟨.inside f p, rfl⟩

theorem exists_of_mem_preorderOfAll {part : Section} :
    ∀ {ss : List Section}, part ∈ preorderOfAll ss →
      ∃ before s after, ss = before ++ [s] ++ after ∧
        (s = part ∨ ∃ p : Place, s = p.fill [part])
  | [], h => nomatch h
  | s :: rest, h => by
      rw [preorderOfAll, List.mem_append] at h
      rcases h with h | h
      · exact ⟨[], s, rest, rfl, eq_fill_of_mem_preorder h⟩
      · obtain ⟨before, s', after, rfl, hs'⟩ := exists_of_mem_preorderOfAll h
        exact ⟨s :: before, s', after, rfl, hs'⟩

end

/-- The parts of a section are the section itself and what stands at its places. -/
theorem mem_preorder_iff {part whole : Section} :
    part ∈ whole.preorder ↔ whole = part ∨ ∃ p : Place, whole = p.fill [part] := by
  refine ⟨eq_fill_of_mem_preorder, ?_⟩
  rintro (rfl | ⟨p, rfl⟩)
  · exact mem_preorder_self _
  · exact p.mem_preorder_fill part

/-! ## Repeated statements -/

theorem addSections_container (header : Option String) (options : Options)
    (ss children : List Section) :
    (container header options ss).addSections children =
      container header options (ss ++ children) := by
  induction children generalizing ss with
  | nil => rw [List.append_nil]; rfl
  | cons s rest ih =>
      have hstep : (container header options ss).addSections (s :: rest) =
          (container header options (ss ++ [s])).addSections rest := rfl
      rw [hstep, ih, List.append_assoc, List.singleton_append]

/-- A group with one option writes one statement, and at its own level. -/
theorem lines_group_setOption (key : String) (v : Value) (depth : Nat) :
    (group.setOption key v).lines depth = (directive (.ofOption key v)).lines depth :=
  rfl

theorem lines_repeated (key : String) (values : List Value) (depth : Nat) :
    (repeated key values).lines depth =
      values.flatMap fun v => (directive (.ofOption key v)).lines depth := by
  have hgroup : (repeated key values).lines depth =
      linesOfAll (values.map fun v => group.setOption key v) depth := by
    rw [repeated, group, addSections_container, List.nil_append]
    rfl
  rw [hgroup, linesOfAll_eq_flatMap, List.flatMap_map]
  simp only [lines_group_setOption]

/-- The text of the group is that of its statements, one after the other. -/
theorem renderAt_repeated (key : String) (values : List Value) (depth : Nat) :
    (repeated key values).renderAt depth =
      String.join (values.map fun v => (directive (.ofOption key v)).renderAt depth) := by
  rw [renderAt, lines_repeated]
  induction values with
  | nil => rfl
  | cons v rest ih =>
      rw [List.flatMap_cons, Line.renderAll_append, ih, List.map_cons, String.join_cons, renderAt]

end Section

end NginxConfig
