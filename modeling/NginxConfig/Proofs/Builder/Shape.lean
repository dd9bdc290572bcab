import NginxConfig.Proofs.Blueprint.Compile
import NginxConfig.Proofs.Builder.Growth
import NginxConfig.Proofs.Tree.Links

/-!
# The shape of a configuration

The cursor of a builder can be put on any container and can be left there, so
nothing keeps an operation from being tried in the wrong place. What keeps the
tree in shape is the keyword of the scope, which has to tell the kinds of nodes
apart for every path and host name: in a tree that has the shape, the keyword
`http` is that of one node, and only what was opened before has the keyword
`server` or `location`.
-/

namespace NginxConfig

namespace Tree

/-- The slot of a container with the given header. -/
def Headed (t : Tree) (id : NodeId) (header : Option String) : Prop :=
  ∃ c, t.container? id = some c ∧ c.header = header

/-- Where locations go: a server, or another location. -/
def HoldsLocations (t : Tree) (id : NodeId) : Prop :=
  t.Headed id (some "server") ∨ ∃ path, t.Headed id (some (locationHeader path))

/-- A server of the `http` block, or a location in its place. -/
inductive Opened (t : Tree) (http id : NodeId) : Prop
  | server (hheader : t.Headed id (some "server")) (hparent : t.parent? id = some http)
  | location {path : String} {parent : NodeId} (hheader : t.Headed id (some (locationHeader path)))
      (hparent : t.parent? id = some parent) (hholds : t.HoldsLocations parent)

/-- What every tree of a new builder looks like. -/
structure Shape (t : Tree) (roots : Roots) : Prop where
  linked : t.Linked
  root : t.Headed Tree.root none ∧ t.sections Tree.root = [roots.globals, roots.events, roots.http]
  globals : t.Headed roots.globals none ∧ t.sections roots.globals = []
  events : t.Headed roots.events (some "events") ∧ t.sections roots.events = []
  http : t.Headed roots.http (some "http")
  opened : ∀ id < t.size, id ≠ Tree.root → id ≠ roots.globals → id ≠ roots.events →
    id ≠ roots.http → t.Opened roots.http id
  parent_lt : ∀ {id parent}, t.parent? id = some parent → parent < id
  ascending : ∀ id, (t.sections id).Pairwise (· < ·)

/-! ## Headers and keywords -/

/-- The keyword of a container with a header. -/
def keywordOf (header : Option String) : Option String :=
  header.bind fun header => (Text.words header).head?

theorem keywordOf_location (path : String) :
    keywordOf (some (locationHeader path)) = some "location" :=
  keyword?_location path ∅ []

namespace Headed

variable {t t' : Tree} {id : NodeId} {header : Option String}

theorem hasContainer (h : t.Headed id header) : t.HasContainer id := by
  obtain ⟨c, hc, -⟩ := h
  exact ⟨c, hc⟩

theorem unique {header' : Option String} (h : t.Headed id header) (h' : t.Headed id header') :
    header = header' := by
  obtain ⟨c, hc, rfl⟩ := h
  obtain ⟨c', hc', rfl⟩ := h'
  rw [Option.some.inj (hc.symm.trans hc')]

theorem ne {id' : NodeId} {header' : Option String} (h : t.Headed id header)
    (h' : t.Headed id' header') (hne : header ≠ header') : id ≠ id' := by
  rintro rfl
  exact hne (h.unique h')

theorem of_keeps (h : t.Headed id header) (hk : t.Keeps t') : t'.Headed id header := by
  obtain ⟨c, hc, rfl⟩ := h
  exact hk.container hc

theorem keyword?_eq (h : t.Headed id header) {c : Container} (hc : t.container? id = some c) :
    c.keyword? = keywordOf header := by
  rw [h.unique ⟨c, hc, rfl⟩, keywordOf, Container.keyword?]

end Headed

namespace HoldsLocations

variable {t t' : Tree} {id : NodeId}

theorem hasContainer (h : t.HoldsLocations id) : t.HasContainer id := by
  rcases h with h | ⟨path, h⟩
  · exact h.hasContainer
  · exact h.hasContainer

theorem of_keeps (h : t.HoldsLocations id) (hk : t.Keeps t') : t'.HoldsLocations id := by
  rcases h with h | ⟨path, h⟩
  · exact Or.inl (h.of_keeps hk)
  · exact Or.inr ⟨path, h.of_keeps hk⟩

theorem ne (h : t.HoldsLocations id) {id' : NodeId} {header : Option String}
    (h' : t.Headed id' header) (hserver : keywordOf header ≠ some "server")
    (hlocation : keywordOf header ≠ some "location") : id ≠ id' := by
  rintro rfl
  rcases h with h | ⟨path, h⟩
  · rw [h'.unique h] at hserver
    exact hserver rfl
  · rw [h'.unique h] at hlocation
    exact hlocation (keywordOf_location path)

end HoldsLocations

/-- An opened node has a keyword of its own. -/
theorem Opened.holdsLocations {t : Tree} {http id : NodeId} (h : t.Opened http id) :
    t.HoldsLocations id := by
  cases h with
  | server hheader _ => exact Or.inl hheader
  | location hheader _ _ => exact Or.inr ⟨_, hheader⟩

/-- Later trees have the node where it is. -/
theorem Opened.of_keeps {t t' : Tree} {http id : NodeId} (h : t.Opened http id) (hk : t.Keeps t')
    (hparent : t'.parent? id = t.parent? id) : t'.Opened http id := by
  cases h with
  | server hheader hp => exact .server (hheader.of_keeps hk) (hparent.trans hp)
  | location hheader hp hholds =>
      exact .location (hheader.of_keeps hk) (hparent.trans hp) (hholds.of_keeps hk)

/-! ## Which scope a keyword is of -/

namespace Shape

variable {t : Tree} {roots : Roots}

/-- One of the first four nodes, or one that was opened. -/
theorem cases (h : t.Shape roots) {id : NodeId} (hid : id < t.size) :
    t.Headed id none ∨ t.Headed id (some "events") ∨ id = roots.http ∨ t.HoldsLocations id := by
  by_cases hroot : id = Tree.root
  · exact Or.inl (hroot ▸ h.root.1)
  by_cases hglobals : id = roots.globals
  · exact Or.inl (hglobals ▸ h.globals.1)
  by_cases hevents : id = roots.events
  · exact Or.inr (Or.inl (hevents ▸ h.events.1))
  by_cases hhttp : id = roots.http
  · exact Or.inr (Or.inr (Or.inl hhttp))
  · exact Or.inr (Or.inr (Or.inr (h.opened id hid hroot hglobals hevents hhttp).holdsLocations))

/-- No node is a directive. -/
theorem hasContainer (h : t.Shape roots) {id : NodeId} (hid : id < t.size) :
    t.HasContainer id := by
  rcases h.cases hid with hnone | hevents | rfl | hholds
  · exact hnone.hasContainer
  · exact hevents.hasContainer
  · exact h.http.hasContainer
  · exact hholds.hasContainer

/-- No node but the root is without a parent, and none is kept from the list of
its parent. -/
theorem exists_parent (h : t.Shape roots) {id : NodeId} (hid : id < t.size)
    (hroot : id ≠ Tree.root) :
    ∃ parent < id, t.parent? id = some parent ∧ id ∈ t.sections parent := by
  have hparent : ∃ parent, t.parent? id = some parent := by
    by_cases hfirst : id ∈ t.sections Tree.root
    · exact ⟨Tree.root, h.linked.parent_iff.mpr hfirst⟩
    · rw [h.root.2] at hfirst
      simp only [List.mem_cons, List.not_mem_nil, or_false, not_or] at hfirst
      obtain ⟨hglobals, hevents, hhttp⟩ := hfirst
      cases h.opened id hid hroot hglobals hevents hhttp with
      | server _ hp => exact ⟨_, hp⟩
      | location _ hp _ => exact ⟨_, hp⟩
  obtain ⟨parent, hp⟩ := hparent
  exact ⟨parent, h.parent_lt hp, hp, h.linked.parent_iff.mp hp⟩

theorem eq_http (h : t.Shape roots) {scope : NodeId} {c : Container}
    (hscope : t.container? scope = some c) (hkeyword : c.keyword? = some "http") :
    scope = roots.http := by
  have hid : scope < t.size := HasContainer.lt_size ⟨c, hscope⟩
  rcases h.cases hid with hnone | hevents | hhttp | hserver | ⟨path, hlocation⟩
  · rw [hnone.keyword?_eq hscope] at hkeyword
    cases hkeyword
  · rw [hevents.keyword?_eq hscope] at hkeyword
    exact absurd hkeyword (by decide)
  · exact hhttp
  · rw [hserver.keyword?_eq hscope] at hkeyword
    exact absurd hkeyword (by decide)
  · rw [hlocation.keyword?_eq hscope, keywordOf_location] at hkeyword
    exact absurd hkeyword (by decide)

theorem holdsLocations (h : t.Shape roots) {scope : NodeId} {c : Container}
    (hscope : t.container? scope = some c)
    (hkeyword : c.keyword? = some "location" ∨ c.keyword? = some "server") :
    t.HoldsLocations scope := by
  have hid : scope < t.size := HasContainer.lt_size ⟨c, hscope⟩
  rcases h.cases hid with hnone | hevents | rfl | hholds
  · rw [hnone.keyword?_eq hscope] at hkeyword
    exact absurd hkeyword (by decide)
  · rw [hevents.keyword?_eq hscope] at hkeyword
    exact absurd hkeyword (by decide)
  · rw [h.http.keyword?_eq hscope] at hkeyword
    exact absurd hkeyword (by decide)
  · exact hholds

/-! ## What keeps the shape -/

theorem changeOptions (h : t.Shape roots) (id : NodeId) (f : Options → Options) :
    (t.changeOptions id f).Shape roots := by
  have hk : t.Keeps (t.changeOptions id f) := .changeOptions t id f
  have hsize : (t.changeOptions id f).size = t.size := size_modifyContainer t id _
  constructor
  · exact h.linked.changeOptions id f
  · exact ⟨h.root.1.of_keeps hk, (sections_changeOptions t id f _).trans h.root.2⟩
  · exact ⟨h.globals.1.of_keeps hk, (sections_changeOptions t id f _).trans h.globals.2⟩
  · exact ⟨h.events.1.of_keeps hk, (sections_changeOptions t id f _).trans h.events.2⟩
  · exact h.http.of_keeps hk
  · intro x hx hroot hglobals hevents hhttp
    exact (h.opened x (hsize ▸ hx) hroot hglobals hevents hhttp).of_keeps hk
      (parent?_changeOptions t id f x)
  · intro x parent hp
    rw [parent?_changeOptions] at hp
    exact h.parent_lt hp
  · intro x
    rw [sections_changeOptions]
    exact h.ascending x

/-- A new node goes behind all others, in its slot and in the list of its
scope. -/
theorem append (h : t.Shape roots) {scope : NodeId} (hscope : t.HasContainer scope)
    (hroot : scope ≠ Tree.root) (hglobals : scope ≠ roots.globals) (hevents : scope ≠ roots.events)
    {header : Option String} {options : Options}
    (hnew : (t.append scope (.container header options [])).1.Opened roots.http t.size) :
    (t.append scope (.container header options [])).1.Shape roots := by
  have hk : t.Keeps (t.append scope (.container header options [])).1 := .append t scope _
  have hsections := sections_append_empty hscope header options
  have hsize : (t.append scope (.container header options [])).1.size = t.size + 1 := by
    rw [size_append]
    rfl
  constructor
  · exact h.linked.append hscope _
  · exact ⟨h.root.1.of_keeps hk, by rw [hsections, if_neg (Ne.symm hroot), h.root.2]⟩
  · exact ⟨h.globals.1.of_keeps hk, by rw [hsections, if_neg (Ne.symm hglobals), h.globals.2]⟩
  · exact ⟨h.events.1.of_keeps hk, by rw [hsections, if_neg (Ne.symm hevents), h.events.2]⟩
  · exact h.http.of_keeps hk
  · intro x hx hxroot hxglobals hxevents hxhttp
    by_cases hlast : x = t.size
    · rw [hlast]
      exact hnew
    · have hold : x < t.size := by omega
      refine (h.opened x hold hxroot hxglobals hxevents hxhttp).of_keeps hk ?_
      rw [parent?_append_empty, if_neg hlast]
  · intro x parent hp
    rw [parent?_append_empty] at hp
    split at hp
    · next hlast =>
        obtain rfl := Option.some.inj hp
        rw [hlast]
        exact hscope.lt_size
    · exact h.parent_lt hp
  · intro x
    rw [hsections]
    split
    · -- What is listed has a slot already, and the new slot is behind all of them.
      refine List.pairwise_append.mpr ⟨h.ascending x, List.pairwise_singleton _ _, ?_⟩
      intro a ha b hb
      rw [List.mem_singleton.mp hb]
      exact lt_size_of_parent? (h.linked.parent_iff.mpr ha)
    · exact h.ascending x

theorem opens (h : t.Shape roots) {t' : Tree} (ho : t.Opens t') : t'.Shape roots := by
  cases ho with
  | @server scope c options hscope hkeyword =>
      obtain rfl := h.eq_http hscope hkeyword
      refine h.append ⟨c, hscope⟩ (h.http.ne h.root.1 (by decide))
        (h.http.ne h.globals.1 (by decide)) (h.http.ne h.events.1 (by decide)) ?_
      refine .server ⟨_, container?_append_empty (HasContainer.lt_size ⟨c, hscope⟩) _ _, rfl⟩ ?_
      rw [parent?_append_empty, if_pos rfl]
  | @location scope c path options hscope hkeyword =>
      have hholds := h.holdsLocations hscope hkeyword
      refine h.append ⟨c, hscope⟩ (hholds.ne h.root.1 (by decide) (by decide))
        (hholds.ne h.globals.1 (by decide) (by decide))
        (hholds.ne h.events.1 (by decide) (by decide)) ?_
      refine .location ⟨_, container?_append_empty hholds.hasContainer.lt_size _ _, rfl⟩ ?_
        (hholds.of_keeps (.append t scope _))
      rw [parent?_append_empty, if_pos rfl]

/-! ## The first tree -/

section Trunk

variable (globals events http : Options)

theorem parent?_trunk (child : NodeId) : (Blueprint.trunk globals events http).parent? child =
    if child ∈ [1, 2, 3] then some Tree.root else none := by
  by_cases hchild : child < 4
  · match child with
    | 0 | 1 | 2 | 3 => rfl
  · have hsize : (Blueprint.trunk globals events http).size ≤ child := Nat.not_lt.mp hchild
    rw [parent?_of_size_le hsize, if_neg]
    intro hmem
    exact hchild ((by decide : ∀ x ∈ [1, 2, 3], x < 4) child hmem)

theorem sections_trunk (parent : NodeId) : (Blueprint.trunk globals events http).sections parent =
    if parent = Tree.root then [1, 2, 3] else [] := by
  by_cases hparent : parent < 4
  · match parent with
    | 0 | 1 | 2 | 3 => rfl
  · have hnone : (Blueprint.trunk globals events http).container? parent = none :=
      Option.eq_none_iff_forall_ne_some.mpr fun c hc => hparent (HasContainer.lt_size ⟨c, hc⟩)
    rw [sections_of_not_container hnone, if_neg]
    rintro rfl
    exact hparent (by decide)

theorem linked_trunk : (Blueprint.trunk globals events http).Linked where
  parent_iff := by
    intro child parent
    rw [parent?_trunk, sections_trunk]
    by_cases hchild : child ∈ [1, 2, 3]
    · by_cases hparent : parent = Tree.root
      · rw [if_pos hchild, if_pos hparent, hparent]
        exact iff_of_true rfl hchild
      · rw [if_pos hchild, if_neg hparent]
        exact iff_of_false (fun heq => hparent (Option.some.inj heq).symm) List.not_mem_nil
    · rw [if_neg hchild]
      refine iff_of_false (fun heq => Option.some_ne_none _ heq.symm) ?_
      split
      · exact hchild
      · exact List.not_mem_nil
  nodup := by
    intro parent
    rw [sections_trunk]
    split
    · decide
    · exact List.nodup_nil

theorem trunk : (Blueprint.trunk globals events http).Shape ⟨1, 2, 3⟩ where
  linked := linked_trunk globals events http
  root := ⟨⟨_, rfl, rfl⟩, rfl⟩
  globals := ⟨⟨_, rfl, rfl⟩, rfl⟩
  events := ⟨⟨_, rfl, rfl⟩, rfl⟩
  http := ⟨_, rfl, rfl⟩
  opened := by
    intro id hid hroot hglobals hevents hhttp
    have hsize : id < 4 := hid
    simp only [Tree.root, ne_eq] at hroot hglobals hevents hhttp
    omega
  parent_lt := by
    intro id parent hp
    rw [parent?_trunk] at hp
    split at hp
    · next hmem =>
        obtain rfl := Option.some.inj hp
        refine Nat.pos_of_ne_zero ?_
        rintro rfl
        exact absurd hmem (by decide)
    · cases hp
  ascending := by
    intro id
    rw [sections_trunk]
    split
    · decide
    · exact .nil

end Trunk

end Shape

end Tree

/-! ## Working with a builder -/

/-- What can be done with a builder, other than to edit its tree directly or to
register plugins. -/
inductive Action where
  | call (operation : String) (args : Args)
  | enter (operation : String) (args : Args)
  /-- Any scope may be closed at any time, or never. -/
  | leave (s : Scope)
  /-- To `end` a scope by hand is the same. -/
  | up
  | descend (id : NodeId)
  | setOption (id : NodeId) (key : String) (value : Value)

namespace Builder

/-- The builder after an action, which may have failed. -/
def act (b : Builder) : Action → Builder
  | .call operation args => (b.call operation args).2
  | .enter operation args => (b.enter operation args).2
  | .leave s => b.leave s
  | .up => b.up
  | .descend id =>
    match b.descend id with
    | .ok b => b
    | .error _ => b
  | .setOption id key value =>
    match b.setOption id key value with
    | .ok b => b
    | .error _ => b

def actAll (b : Builder) (actions : List Action) : Builder :=
  actions.foldl act b

/-- The builder knows its first operations only, and its tree has the shape. -/
structure InShape (b : Builder) : Prop where
  registry : b.registry = .initial b.id
  shape : b.state.tree.Shape b.state.roots

namespace InShape

theorem new (id : BuilderId) (settings : Settings) : (Builder.new id settings).InShape where
  registry := rfl
  shape := by
    have hstate : (Builder.new id settings).state = ⟨Blueprint.trunk settings.globalOptions
        settings.eventOptions httpOptions, .on 3, ⟨1, 2, 3⟩⟩ := Blueprint.initialState_eq settings
    rw [hstate]
    exact Tree.Shape.trunk _ _ _

variable {b : Builder}

theorem withCursor (h : b.InShape) (cursor : Cursor) : (b.withCursor cursor).InShape :=
  ⟨h.registry, h.shape⟩

theorem call (h : b.InShape) (operation : String) (args : Args) :
    (b.call operation args).2.InShape where
  registry := h.registry
  shape := by
    have hgrowth := dispatch_initial b.id callDepth b.state operation args
    rw [← h.registry] at hgrowth
    obtain ⟨hroots, htree⟩ := hgrowth
    show (dispatch b.registry callDepth b.state operation args).state.tree.Shape
      (dispatch b.registry callDepth b.state operation args).state.roots
    rw [hroots]
    rcases htree with hsame | hopens
    · rw [hsame]
      exact h.shape
    · exact h.shape.opens hopens

theorem enter (h : b.InShape) (operation : String) (args : Args) :
    (b.enter operation args).2.InShape := by
  obtain ⟨cursor, henter⟩ := b.enter_snd operation args
  rw [henter]
  exact (h.call operation args).withCursor cursor

/-- The step of every run. -/
theorem act (h : b.InShape) (a : Action) : (b.act a).InShape := by
  cases a with
  | call operation args => exact h.call operation args
  | enter operation args => exact h.enter operation args
  | leave s => exact h.withCursor s.restoreTo
  | up => exact h.withCursor _
  | descend id =>
      rw [Builder.act]
      split
      · next b' hdescend =>
          obtain ⟨c, -, heq⟩ := bind_eq_ok.mp hdescend
          obtain rfl := Except.ok.inj heq
          exact h.withCursor (.on id)
      · exact h
  | setOption id key value =>
      rw [Builder.act]
      split
      · next b' hset =>
          obtain ⟨t, ht, heq⟩ := bind_eq_ok.mp hset
          obtain rfl := Except.ok.inj heq
          obtain rfl := Tree.changeOptions_of_setOption ht
          exact ⟨h.registry, h.shape.changeOptions id (·.insert key value)⟩
      · exact h

theorem actAll (h : b.InShape) (actions : List Action) : (b.actAll actions).InShape := by
  induction actions generalizing b with
  | nil => exact h
  | cons a rest ih => exact ih (h.act a)

end InShape

/-- **Every tree of a new builder has the shape of a configuration**, whatever
is called with whatever arguments and wherever the cursor is put: the root has
the three sections that it started with, servers are in the `http` block,
locations in servers and in one another, and there are no directives. Every
node but the root is in the list of its parent, behind the nodes that came
before it. -/
theorem actAll_keeps_shape (id : BuilderId) (settings : Settings) (actions : List Action) :
    let b := (Builder.new id settings).actAll actions
    b.tree.Shape b.roots
      ∧ (∀ x < b.tree.size, b.tree.HasContainer x)
      ∧ ∀ x < b.tree.size, x ≠ Tree.root →
          ∃ parent < x, b.tree.parent? x = some parent ∧ x ∈ b.tree.sections parent := by
  intro b
  have h : b.tree.Shape b.roots := ((InShape.new id settings).actAll actions).shape
  exact ⟨h, fun x hx => h.hasContainer hx, fun x hx => h.exists_parent hx⟩

end Builder

end NginxConfig
