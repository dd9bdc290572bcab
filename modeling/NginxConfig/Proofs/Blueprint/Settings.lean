import NginxConfig.Proofs.Blueprint.Refusals
import NginxConfig.Proofs.Builder.Shape
import NginxConfig.Proofs.Tree.Locality
import NginxConfig.Proofs.Tree.Rows

/-!
# What settings have a part in

The settings of a blueprint go into the options of the global and the `events`
scope, and everything else is built beside these. So they have no part in
whether the blueprint compiles, and with two settings the trees differ in those
two tables of options at most. In the text these are four statements, each in a
place that depends on the blueprint alone; and a key that the blueprint has
globals for has its statement from there.
-/

namespace NginxConfig

/-! ## Trees that differ in options -/

namespace Tree

/-- The same slots hang together in the same way, and outside of some of them
they hold the same. -/
structure AlikeBut (t t' : Tree) (ids : List NodeId) : Prop where
  size_eq : t'.size = t.size
  parent_eq : ∀ x, t'.parent? x = t.parent? x
  sections_eq : ∀ x, t'.sections x = t.sections x
  header_eq : ∀ x, (t'.container? x).map Container.header = (t.container? x).map Container.header
  content_eq : ∀ x ∉ ids, t'.content? x = t.content? x

theorem Shape.forest {t : Tree} {roots : Roots} (h : t.Shape roots) : t.Forest where
  toLinked := h.linked
  acyclic := Subrelation.wf (fun hp => h.parent_lt hp) Nat.lt_wfRel.wf

/-- A node is drawn alike in two trees if the same section is read back from it. -/
theorem Holds.drawnAlike {t t' : Tree} (h : t.Forest) (h' : t'.Forest) {x : NodeId} {s : Section}
    (hx : x < t.size) (hx' : x < t'.size) (hs : t.Holds x s) (hs' : t'.Holds x s) :
    t.DrawnAlike t' x := by
  have hlines (depth : Nat) : t'.lines x depth = t.lines x depth := by
    rw [hs.lines_eq h, hs'.lines_eq h']
  refine ⟨?_, hlines⟩
  rw [renderNode_of_lt hx, renderNode_of_lt hx', hlines]

end Tree

namespace Blueprint

/-! ## The trees of two settings -/

section Trunk

variable (globals events http : Options) (sections : List Section)

/-- The tree with further sections in its last container. -/
theorem forest_appendAll_trunk : ((trunk globals events http).appendAll 3 sections).Forest :=
  Tree.appendAll_induction (fun ht hp hc => ht.addLeaf hp hc)
    (Tree.Shape.trunk globals events http).forest ⟨_, container?_http globals events http⟩ sections

theorem holds_http : ((trunk globals events http).appendAll 3 sections).Holds 3
    (.container (some "http") http sections) := by
  have hlt : 3 < (trunk globals events http).size := Nat.lt_succ_self 3
  have hhttp := Tree.container?_appendAll hlt (container?_http globals events http) sections
  rw [if_pos rfl] at hhttp
  exact Tree.holds_container.mpr ⟨_, hhttp, Tree.holdsAll_appendAll hlt sections⟩

/-- The slots of the global and the `events` scope have nothing in them but their options. -/
theorem node?_appendAll_trunk (x : NodeId) :
    ((trunk globals events http).appendAll 3 sections).node? x =
      if x = 1 then some ⟨some Tree.root, .container ⟨none, globals, []⟩⟩
      else if x = 2 then some ⟨some Tree.root, .container ⟨some "events", events, []⟩⟩
      else ((trunk ∅ ∅ http).appendAll 3 sections).node? x := by
  rw [Tree.appendAll_eq (Nat.lt_succ_self 3), Tree.appendAll_eq (Nat.lt_succ_self 3),
    Tree.node?_extend, Tree.node?_extend, Tree.size_modifyContainer, Tree.size_modifyContainer]
  by_cases hx : x < 4
  · match x with
    | 0 | 1 | 2 | 3 => rfl
  · have hge : ¬ x < (trunk globals events http).size := hx
    have hge' : ¬ x < (trunk ∅ ∅ http).size := hx
    have hglobals : x ≠ 1 := fun h => hx (h ▸ by decide)
    have hevents : x ≠ 2 := fun h => hx (h ▸ by decide)
    rw [if_neg hge, if_neg hge', if_neg hglobals, if_neg hevents]
    rfl

theorem alikeBut_trunk (globals' events' : Options) :
    ((trunk globals events http).appendAll 3 sections).AlikeBut
      ((trunk globals' events' http).appendAll 3 sections) [1, 2] := by
  have hnode := node?_appendAll_trunk globals events http sections
  have hnode' := node?_appendAll_trunk globals' events' http sections
  have hsize : ((trunk globals' events' http).appendAll 3 sections).size =
      ((trunk globals events http).appendAll 3 sections).size := by
    rw [Tree.size_appendAll, Tree.size_appendAll]
    rfl
  generalize (trunk globals events http).appendAll 3 sections = t at hnode hsize ⊢
  generalize (trunk globals' events' http).appendAll 3 sections = t' at hnode' hsize ⊢
  have hsame : ∀ x, x ≠ 1 → x ≠ 2 → t'.node? x = t.node? x := fun x hglobals hevents => by
    rw [hnode, hnode', if_neg hglobals, if_neg hglobals, if_neg hevents, if_neg hevents]
  have hviews : ∀ x, t'.parent? x = t.parent? x ∧ t'.sections x = t.sections x
      ∧ (t'.container? x).map Container.header = (t.container? x).map Container.header := fun x => by
    simp only [Tree.sections, Tree.container?, Tree.parent?]
    by_cases hglobals : x = 1
    · rw [hnode, hnode', if_pos hglobals, if_pos hglobals]
      exact ⟨rfl, rfl, rfl⟩
    by_cases hevents : x = 2
    · rw [hnode, hnode', if_neg hglobals, if_pos hevents, if_neg hglobals, if_pos hevents]
      exact ⟨rfl, rfl, rfl⟩
    · rw [hsame x hglobals hevents]
      exact ⟨rfl, rfl, rfl⟩
  refine ⟨hsize, fun x => (hviews x).1, fun x => (hviews x).2.1, fun x => (hviews x).2.2,
    fun x hx => ?_⟩
  rw [List.mem_cons, List.mem_singleton, not_or] at hx
  rw [Tree.content?, hsame x hx.1 hx.2, Tree.content?]

end Trunk

end Blueprint

/-! ## The text of settings -/

namespace Settings

/-- The lines that the global scope begins with. A value among the globals comes before that
of the settings. -/
def globalLines (s : Settings) (globals : Options) : List Line :=
  [("worker_processes", s.workerProcesses.value), ("error_log", .str s.errorLog),
    ("daemon", .bool s.daemon)].map fun p =>
      ⟨0, (Directive.ofOption p.1 ((globals.get? p.1).getD p.2)).statement⟩

/-- The line in the `events` block. -/
def eventLine (s : Settings) : Line :=
  ⟨1, (Directive.ofOption "worker_connections"
    (.int (Int64.ofNat s.workerConnections.toNat))).statement⟩

theorem oneRow_globalLines (s : Settings) : ∀ l ∈ s.globalLines ∅, Text.OneRow l.text := by
  have hrow : ∀ {name : String} {v : Value}, Text.OneRow name → v.KeepsRow →
      Text.OneRow (Directive.ofOption name v).statement :=
    fun hname hv => Directive.oneRow_statement_iff.mpr ⟨hname, hv⟩
  have hprocesses : s.workerProcesses.value.KeepsRow := by
    cases s.workerProcesses <;> trivial
  simp only [globalLines, List.map_cons, List.map_nil, List.forall_mem_cons]
  exact ⟨hrow (by decide) hprocesses, hrow (by decide) trivial, hrow (by decide) trivial,
    List.forall_mem_nil _⟩

theorem oneRow_eventLine (s : Settings) : Text.OneRow s.eventLine.text :=
  Directive.oneRow_statement_iff.mpr ⟨by decide, trivial⟩

/-- All lines of the global scope. -/
theorem optionLines_global (s : Settings) (globals : Options) :
    Section.optionLines (s.globalOptions.overlay globals) 0 =
      s.globalLines globals ++
        (globals.entries.filter fun p => p.1 ∉ ["worker_processes", "error_log", "daemon"]).map
          fun p => ⟨0, (Directive.ofOption p.1 p.2).statement⟩ := by
  have hentries : (s.globalOptions.overlay globals).entries =
      ([("worker_processes", s.workerProcesses.value), ("error_log", Value.str s.errorLog),
        ("daemon", .bool s.daemon)].map fun p => (p.1, (globals.get? p.1).getD p.2)) ++
      globals.entries.filter fun p => p.1 ∉ ["worker_processes", "error_log", "daemon"] := rfl
  rw [Section.optionLines, hentries, List.map_append, List.map_map]
  rfl

end Settings

namespace Blueprint

/-! ## Two runs of the compiler -/

variable {s s' : Settings} {id id' : BuilderId}

/-- The error is the same whatever the settings are. -/
theorem compile_eq_error_iff (bp : Blueprint) (s s' : Settings) (id id' : BuilderId) (e : Error) :
    ({ bp with settings := s } : Blueprint).compile id = .error e ↔
      ({ bp with settings := s' } : Blueprint).compile id' = .error e := by
  rw [compile_eq_error, compile_eq_error]
  rfl

theorem exists_compile (bp : Blueprint) {b : Builder}
    (h : ({ bp with settings := s } : Blueprint).compile id = .ok b) (s' : Settings)
    (id' : BuilderId) : ∃ b', ({ bp with settings := s' } : Blueprint).compile id' = .ok b' :=
  ⟨_, compile_eq_ok.mpr ⟨(compile_eq_ok.mp h).1, rfl⟩⟩

variable {bp : Blueprint}

/-- What the compiler makes of a blueprint with some settings. -/
theorem tree_of_compile {b : Builder}
    (h : ({ bp with settings := s } : Blueprint).compile id = .ok b) :
    b.tree = (trunk (s.globalOptions.overlay bp.globals) s.eventOptions
        (Builder.httpOptions.overlay bp.http)).appendAll 3 (bp.servers.map Server.block)
      ∧ b.roots = ⟨1, 2, 3⟩ ∧ b.current = some 3 := by
  obtain ⟨-, rfl⟩ := compile_eq_ok.mp h
  refine ⟨rfl, ?_, ?_⟩
  · exact congrArg BuildState.roots (initialState_eq s)
  · exact congrArg (fun st => st.cursor.current) (initialState_eq s)

/-- The `http` block, wherever the settings come from. -/
theorem holds_http_of_compile {b : Builder}
    (h : ({ bp with settings := s } : Blueprint).compile id = .ok b) :
    b.tree.Forest ∧ b.roots.http < b.tree.size
      ∧ b.tree.Holds b.roots.http (.container (some "http") (Builder.httpOptions.overlay bp.http)
          (bp.servers.map Server.block)) := by
  obtain ⟨htree, hroots, -⟩ := tree_of_compile h
  rw [hroots, htree]
  refine ⟨forest_appendAll_trunk _ _ _ _, ?_, holds_http _ _ _ _⟩
  rw [Tree.size_appendAll]
  exact Nat.lt_add_right _ (Nat.lt_succ_self 3)

theorem lines_http {b : Builder}
    (h : ({ bp with settings := s } : Blueprint).compile id = .ok b) :
    b.tree.lines b.roots.http 0 = (Section.container (some "http")
      (Builder.httpOptions.overlay bp.http) (bp.servers.map Server.block)).lines 0 := by
  obtain ⟨hforest, -, hholds⟩ := holds_http_of_compile h
  exact hholds.lines_eq hforest 0

/-- With any two settings, all that differs are the options that they go into. -/
theorem alike_of_compile {b b' : Builder}
    (h : ({ bp with settings := s } : Blueprint).compile id = .ok b)
    (h' : ({ bp with settings := s' } : Blueprint).compile id' = .ok b') :
    b'.roots = b.roots ∧ b'.current = b.current
      ∧ b.tree.AlikeBut b'.tree [b.roots.globals, b.roots.events]
      ∧ b.tree.DrawnAlike b'.tree b.roots.http := by
  obtain ⟨htree, hroots, hcursor⟩ := tree_of_compile h
  obtain ⟨htree', hroots', hcursor'⟩ := tree_of_compile h'
  obtain ⟨hforest, hlt, hholds⟩ := holds_http_of_compile h
  obtain ⟨hforest', hlt', hholds'⟩ := holds_http_of_compile h'
  have hsame : b'.roots = b.roots := hroots'.trans hroots.symm
  rw [hsame] at hlt' hholds'
  refine ⟨hsame, hcursor'.trans hcursor.symm, ?_, hholds.drawnAlike hforest hforest' hlt hlt' hholds'⟩
  rw [htree, htree', hroots]
  exact alikeBut_trunk _ _ _ _ _ _

/-- The text of a configuration, cut where settings come in. -/
theorem render_of_compile {b : Builder}
    (h : ({ bp with settings := s } : Blueprint).compile id = .ok b) :
    b.render = Line.renderAll (s.globalLines bp.globals
      ++ ((bp.globals.entries.filter fun p =>
          p.1 ∉ ["worker_processes", "error_log", "daemon"]).map fun p =>
            ⟨0, (Directive.ofOption p.1 p.2).statement⟩)
      ++ [Line.opening 0 "events", s.eventLine, Line.closing 0]
      ++ (Section.container (some "http") (Builder.httpOptions.overlay bp.http)
          (bp.servers.map Server.block)).lines 0) := by
  obtain ⟨htree, -⟩ := tree_of_compile h
  have hholds := holds_trunk (s.globalOptions.overlay bp.globals) s.eventOptions
    (Builder.httpOptions.overlay bp.http) (bp.servers.map Server.block)
  have hlines := hholds.lines_eq (forest_appendAll_trunk _ _ _ _) 0
  have hgroup (a b c : Section) : (Section.container none ∅ [a, b, c]).lines 0 =
      a.lines 0 ++ b.lines 0 ++ c.lines 0 := by
    simp only [Section.lines, Line.enclose, Section.linesOfAll, List.append_nil, List.append_assoc]
    rfl
  have hglobal (o : Options) :
      (Section.container none o []).lines 0 = Section.optionLines o 0 := by
    simp only [Section.lines, Line.enclose, Section.linesOfAll, List.append_nil]
  have hevents : (Section.container (some "events") s.eventOptions []).lines 0 =
      [Line.opening 0 "events", s.eventLine, Line.closing 0] := rfl
  rw [Builder.render, Tree.render, htree, hlines, hgroup, hglobal, hevents,
    Settings.optionLines_global]

end Blueprint

end NginxConfig
