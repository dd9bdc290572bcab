import NginxConfig.Proofs.Tree.Lines

/-!
# A node as a section

A section is a value, and a node is a place in a tree. `Holds` relates the two:
what is read back from a node, its sections read back in their order. In a
forest every slot holds exactly one section, since the sections below a node
run out.

Rendering a node and rendering what is read back from it agree line by line
(`Holds.lines_eq`), and so does looking for a section by its name
(`HoldsAll.findIdx?_eq`).
-/

namespace NginxConfig.Tree

open Section

mutual

/-- The section that is read back from a node. -/
def Holds (t : Tree) (id : NodeId) : Section → Prop
  | .directive d => t.content? id = some (.directive d)
  | .container header options sections =>
    ∃ ids, t.container? id = some ⟨header, options, ids⟩ ∧ t.HoldsAll ids sections

def HoldsAll (t : Tree) : List NodeId → List Section → Prop
  | [], [] => True
  | id :: ids, s :: rest => t.Holds id s ∧ t.HoldsAll ids rest
  | _, _ => False

end

theorem holds_directive {t : Tree} {id : NodeId} {d : Directive} :
    t.Holds id (.directive d) ↔ t.content? id = some (.directive d) :=
  Iff.rfl

theorem holds_container {t : Tree} {id : NodeId} {header : Option String} {options : Options}
    {sections : List Section} :
    t.Holds id (.container header options sections) ↔
      ∃ ids, t.container? id = some ⟨header, options, ids⟩ ∧ t.HoldsAll ids sections :=
  Iff.rfl

theorem holdsAll_cons {t : Tree} {id : NodeId} {ids : List NodeId} {s : Section}
    {rest : List Section} :
    t.HoldsAll (id :: ids) (s :: rest) ↔ t.Holds id s ∧ t.HoldsAll ids rest :=
  Iff.rfl

/-- The sections of a node are read back in their order. -/
theorem Holds.sections {t : Tree} {id : NodeId} {s : Section} (h : t.Holds id s) :
    t.HoldsAll (t.sections id) s.sections := by
  cases s with
  | directive d =>
      rw [sections_of_directive (holds_directive.mp h)]
      trivial
  | container header options sections =>
      obtain ⟨ids, hc, hall⟩ := holds_container.mp h
      rw [sections_of_container? hc]
      exact hall

/-! ## One section for every slot -/

mutual

theorem Holds.unique {t : Tree} {id : NodeId} :
    ∀ {s s' : Section}, t.Holds id s → t.Holds id s' → s = s'
  | .directive d, .directive d', h, h' => by
      have hd := (holds_directive.mp h).symm.trans (holds_directive.mp h')
      exact congrArg Section.directive (Content.directive.inj (Option.some.inj hd))
  | .directive d, .container header options sections, h, h' => by
      obtain ⟨ids, hc, -⟩ := holds_container.mp h'
      rw [container?_of_directive (holds_directive.mp h)] at hc
      cases hc
  | .container header options sections, .directive d, h, h' => by
      obtain ⟨ids, hc, -⟩ := holds_container.mp h
      rw [container?_of_directive (holds_directive.mp h')] at hc
      cases hc
  | .container header options sections, .container header' options' sections', h, h' => by
      obtain ⟨ids, hc, hall⟩ := holds_container.mp h
      obtain ⟨ids', hc', hall'⟩ := holds_container.mp h'
      obtain ⟨rfl, rfl, rfl⟩ := Container.mk.inj (Option.some.inj (hc.symm.trans hc'))
      rw [HoldsAll.unique hall hall']

theorem HoldsAll.unique {t : Tree} :
    ∀ {ids : List NodeId} {ss ss' : List Section}, t.HoldsAll ids ss → t.HoldsAll ids ss' →
      ss = ss'
  | [], [], [], _, _ => rfl
  | id :: ids, s :: rest, s' :: rest', h, h' => by
      obtain ⟨hs, hrest⟩ := holdsAll_cons.mp h
      obtain ⟨hs', hrest'⟩ := holdsAll_cons.mp h'
      rw [hs.unique hs', hrest.unique hrest']

end

theorem exists_holdsAll {t : Tree} :
    ∀ {ids : List NodeId}, (∀ id ∈ ids, ∃ s, t.Holds id s) → ∃ ss, t.HoldsAll ids ss
  | [], _ => ⟨[], trivial⟩
  | id :: ids, h => by
      obtain ⟨s, hs⟩ := h id List.mem_cons_self
      obtain ⟨rest, hrest⟩ := exists_holdsAll fun x hx => h x (List.mem_cons_of_mem id hx)
      exact ⟨s :: rest, hs, hrest⟩

theorem Forest.exists_holds {t : Tree} (h : t.Forest) {id : NodeId} (hid : id < t.size) :
    ∃ s, t.Holds id s := by
  induction id using h.descend_induction with
  | step id ih =>
      rcases directive_or_container hid with ⟨d, hd⟩ | ⟨c, hc⟩
      · exact ⟨.directive d, hd⟩
      · have hchild : ∀ child ∈ c.sections, ∃ s, t.Holds child s := fun child hm => by
          rw [← sections_of_container? hc] at hm
          exact ih child hm (lt_size_of_parent? (h.parent_iff.mpr hm))
        obtain ⟨ss, hss⟩ := exists_holdsAll hchild
        exact ⟨.container c.header c.options ss, c.sections, hc, hss⟩

/-! ## What is attached is read back -/

/-- The slots from `base` on hold the contents of some nodes. -/
def Stores (t : Tree) (base : NodeId) (ns : List Node) : Prop :=
  ∀ i n, ns[i]? = some n → t.content? (base + i) = some n.content

theorem Stores.head {t : Tree} {base : NodeId} {n : Node} {ns : List Node}
    (h : t.Stores base (n :: ns)) : t.content? base = some n.content :=
  h 0 n rfl

theorem Stores.tail {t : Tree} {base : NodeId} {n : Node} {ns : List Node}
    (h : t.Stores base (n :: ns)) : t.Stores (base + 1) ns := by
  intro i m hm
  rw [Nat.add_right_comm]
  exact h (i + 1) m hm

theorem Stores.left {t : Tree} {base : NodeId} {ns ms : List Node} (h : t.Stores base (ns ++ ms)) :
    t.Stores base ns := by
  intro i n hn
  refine h i n ?_
  rw [List.getElem?_append_left (List.getElem?_eq_some_iff.mp hn).1, hn]

theorem Stores.right {t : Tree} {base : NodeId} {ns ms : List Node}
    (h : t.Stores base (ns ++ ms)) : t.Stores (base + ns.length) ms := by
  intro i m hm
  rw [Nat.add_assoc]
  refine h (ns.length + i) m ?_
  rw [List.getElem?_append_right (Nat.le_add_right _ _), Nat.add_sub_cancel_left, hm]

mutual

theorem holds_of_stores {t : Tree} {parent : NodeId} :
    ∀ {s : Section} {base : NodeId}, t.Stores base (s.layout parent base) → t.Holds base s
  | .directive _, _, h => holds_directive.mpr h.head
  | .container _ _ _, _, h =>
      holds_container.mpr
        ⟨_, content?_eq_some_container.mp h.head, holdsAll_of_stores h.tail⟩

theorem holdsAll_of_stores {t : Tree} {parent : NodeId} :
    ∀ {ss : List Section} {base : NodeId}, t.Stores base (layoutOfAll parent base ss) →
      t.HoldsAll (starts base ss) ss
  | [], _, _ => trivial
  | s :: rest, base, h => by
      rw [layoutOfAll] at h
      have hrest := h.right
      rw [length_layout] at hrest
      exact holdsAll_cons.mpr ⟨holds_of_stores h.left, holdsAll_of_stores hrest⟩

end

theorem stores_extend (t : Tree) (ns : List Node) : (t.extend ns).Stores t.size ns := by
  intro i n hn
  rw [content?_extend_add, hn]
  rfl

/-- What is attached is what is read back. -/
theorem holdsAll_appendAll {t : Tree} {parent : NodeId} (h : parent < t.size)
    (ss : List Section) : (t.appendAll parent ss).HoldsAll (starts t.size ss) ss := by
  have hstores := stores_extend (t.modifyContainer parent fun c =>
    { c with sections := c.sections ++ starts t.size ss }) (layoutOfAll parent t.size ss)
  rw [size_modifyContainer, ← appendAll_eq h] at hstores
  exact holdsAll_of_stores hstores

/-! ## Text -/

mutual

/-- A node and what is read back from it are the same text. -/
theorem Holds.lines_eq {t : Tree} (hf : t.Forest) :
    ∀ {s : Section} {id : NodeId}, t.Holds id s → ∀ depth, t.lines id depth = s.lines depth
  | .directive d, id, h, depth => by
      rw [hf.lines_directive (holds_directive.mp h), Section.lines]
  | .container header options sections, id, h, depth => by
      obtain ⟨ids, hc, hall⟩ := holds_container.mp h
      rw [hf.lines_container hc, Section.lines]
      congr 1
      funext inner
      rw [hall.flatMap_lines hf]

theorem HoldsAll.flatMap_lines {t : Tree} (hf : t.Forest) :
    ∀ {ss : List Section} {ids : List NodeId}, t.HoldsAll ids ss →
      ∀ depth, (ids.flatMap fun id => t.lines id depth) = linesOfAll ss depth
  | [], [], _, _ => rfl
  | s :: rest, id :: ids, h, depth => by
      obtain ⟨hs, hrest⟩ := holdsAll_cons.mp h
      rw [List.flatMap_cons, hs.lines_eq hf, hrest.flatMap_lines hf, linesOfAll]

end

/-! ## Names -/

theorem Holds.name?_eq {t : Tree} {id : NodeId} {s : Section} (h : t.Holds id s) :
    t.name? id = s.name? := by
  cases s with
  | directive d =>
      rw [name?, node?_of_directive (holds_directive.mp h)]
      rfl
  | container header options sections =>
      obtain ⟨ids, hc, -⟩ := holds_container.mp h
      rw [name?, node?_of_container hc]
      rfl

theorem HoldsAll.map_name? {t : Tree} :
    ∀ {ids : List NodeId} {ss : List Section}, t.HoldsAll ids ss →
      ids.map t.name? = ss.map Section.name?
  | [], [], _ => rfl
  | id :: ids, s :: rest, h => by
      obtain ⟨hs, hrest⟩ := holdsAll_cons.mp h
      rw [List.map_cons, List.map_cons, hs.name?_eq, hrest.map_name?]

/-- Equal names stand at equal positions. -/
theorem HoldsAll.findIdx?_eq {t : Tree} {ids : List NodeId} {ss : List Section}
    (h : t.HoldsAll ids ss) (name : String) :
    (ss.findIdx? fun s => s.name? == some name) =
      ids.findIdx? fun id => t.name? id == some name := by
  have hmap := congrArg (List.findIdx? (· == some name)) h.map_name?
  rw [List.findIdx?_map, List.findIdx?_map] at hmap
  exact hmap.symm

/-- **Nodes render as what is read back.** In every tree that a run of edits
makes, every slot holds exactly one section, the node renders as that section
does at every depth, and a name is found at the same position in the node and
in the section, or in neither. -/
theorem renders_as_read_back (es : List Edit) :
    let t := Tree.new.run es
    ∀ id < t.size, ∃ s, t.Holds id s
      ∧ (∀ s', t.Holds id s' → s' = s)
      ∧ t.renderNode id = .ok s.render
      ∧ (∀ depth, Line.renderAll (t.lines id depth) = s.renderAt depth)
      ∧ (t.sections id).filter (· ≠ id) = t.sections id
      ∧ ∀ name, ∃ position : Option Nat,
          ((t.sections id).findIdx? fun child => t.name? child == some name) = position
            ∧ (s.sections.findIdx? fun child => child.name? == some name) = position
            ∧ t.find? id name = position.bind ((t.sections id)[·]?)
            ∧ s.find? name = position.bind (s.sections[·]?) := by
  intro t id hid
  have h : t.Forest := forest_run es
  obtain ⟨s, hs⟩ := h.exists_holds hid
  have hlines : ∀ depth, t.lines id depth = s.lines depth := hs.lines_eq h
  refine ⟨s, hs, fun s' hs' => hs'.unique hs, ?_, fun depth => ?_, h.filter_sections id,
    fun name => ⟨_, rfl, hs.sections.findIdx?_eq name, ?_, ?_⟩⟩
  · obtain ⟨n, hn⟩ := node?_isSome.mpr hid
    rw [renderNode, node_eq_ok.mpr hn, ok_bind, hlines]
    rfl
  · rw [hlines]
    rfl
  · exact List.find?_eq_bind_findIdx?_getElem?
  · rw [← hs.sections.findIdx?_eq name]
    exact List.find?_eq_bind_findIdx?_getElem?

/-- A block with a group in it, and a server that is moved there from the root. -/
def siteEdits : List Edit :=
  [.attach root (.container (some "http") (.ofList [("include", .str "mime.types")])
      [.container none (.ofList [("gzip", .bool true)]) [.container (some "map") ∅ []]]),
    .attach root (.container (some "server") (.ofList [("listen", .int 80)])
      [.container (some "location /") ∅ [.directive (.bare "internal")]]),
    .reattach 4 1, .setOption 4 "listen" (.int 8080)]

/-- What is read back from the block. -/
def siteSection : Section :=
  .container (some "http") (.ofList [("include", .str "mime.types")])
    [.container none (.ofList [("gzip", .bool true)]) [.container (some "map") ∅ []],
      .container (some "server") (.ofList [("listen", .int 8080)])
        [.container (some "location /") ∅ [.directive (.bare "internal")]]]

theorem renders_as_read_back_site :
    let t := Tree.new.run siteEdits
    1 < t.size
      ∧ t.Holds 1 siteSection
      ∧ t.renderNode 1 = .ok siteSection.render
      ∧ siteSection.render =
        "\nhttp \x7b\n    include mime.types;\n    gzip on;\n    map \x7b\n    \x7d\n    server \x7b" ++
          "\n        listen 8080;\n        location / \x7b\n            internal;\n        \x7d" ++
          "\n    \x7d\n\x7d"
      ∧ siteSection.find? "server" = siteSection.sections[1]?
      ∧ t.find? 1 "server" = some 4 := by
  intro t
  have hlt : 1 < t.size := by decide
  have hheld : t.Holds 1 siteSection :=
    ⟨_, rfl, ⟨_, rfl, ⟨_, rfl, trivial⟩, trivial⟩, ⟨_, rfl, ⟨_, rfl, rfl, trivial⟩, trivial⟩,
      trivial⟩
  obtain ⟨s, -, hunique, hrender, -, -, hfind⟩ := renders_as_read_back siteEdits 1 hlt
  obtain rfl := hunique siteSection hheld
  obtain ⟨position, -, hposition, hnode, hsection⟩ := hfind "server"
  obtain rfl : some 1 = position := hposition
  exact ⟨hlt, hheld, hrender, rfl, hsection, hnode⟩

end NginxConfig.Tree
