import NginxConfig.Proofs.Fallible
import NginxConfig.Proofs.Tree.Layout

/-!
# Runs of edits

An `Edit` is one call of an editing operation with whatever arguments, and a
run is a list of them; an edit that fails leaves the tree as it was. What a
single edit can do is said once, in `edit_cases`: nothing, an attachment, a
cut, a cut and a link, or a change of options. Invariants of runs are proved
from this list, and an attachment is in turn a row of new leaves
(`append_induction`).
-/

namespace NginxConfig

/-- A call of an editing operation. -/
inductive Edit where
  | attach (parent : NodeId) (s : Section)
  | detach (id : NodeId)
  | reattach (id parent : NodeId)
  | setOption (id : NodeId) (key : String) (value : Value)
  /-- Looks an option up, with a default, and writes something in its place. -/
  | optionEntry (id : NodeId) (key : String) (default : Value) (write : Value → Value)

def Edit.apply (t : Tree) : Edit → Except Error Tree
  | .attach parent s => return (← t.attach parent s).1
  | .detach id => t.detach id
  | .reattach id parent => t.reattach id parent
  | .setOption id key value => t.setOption id key value
  | .optionEntry id key default write => do
    let (t, value) ← t.optionEntry id key default
    t.setOption id key (write value)

/-- Nothing hangs on it yet: a directive, or a container without sections. -/
def Content.Childless : Content → Prop
  | .container c => c.sections = []
  | .directive _ => True

namespace Tree

/-- The tree after an edit, which is the tree before it if the edit fails. -/
def edit (t : Tree) (e : Edit) : Tree :=
  match e.apply t with
  | .ok t => t
  | .error _ => t

def run (t : Tree) (es : List Edit) : Tree :=
  es.foldl edit t

/-- What holds at first and survives an edit holds after every run. -/
theorem run_induction {P : Tree → Prop} {t : Tree} (start : P t)
    (step : ∀ {t} (e : Edit), P t → P (t.edit e)) (es : List Edit) : P (t.run es) := by
  induction es generalizing t with
  | nil => exact start
  | cons e es ih => exact ih (step e start)

/-! ## The elementary changes -/

/-- Takes a node from the list of its parent, if it has one. -/
def cut (t : Tree) (id : NodeId) : Tree :=
  match t.parent? id with
  | none => t
  | some parent => (t.removeSection parent id).setParent id none

/-- Puts a node at the end of a list. -/
def link (t : Tree) (id parent : NodeId) : Tree :=
  (t.appendSection parent id).setParent id (some parent)

def changeOptions (t : Tree) (id : NodeId) (f : Options → Options) : Tree :=
  t.modifyContainer id fun c => { c with options := f c.options }

/-- A new node at the end of a list. -/
def addLeaf (t : Tree) (parent : NodeId) (content : Content) : Tree :=
  (t.push ⟨some parent, content⟩).appendSection parent t.size

@[simp] theorem size_cut (t : Tree) (id : NodeId) : (t.cut id).size = t.size := by
  rw [cut]
  split
  · rfl
  · rw [size_setParent, removeSection, size_modifyContainer]

theorem parent?_cut (t : Tree) (id x : NodeId) :
    (t.cut id).parent? x = if x = id then none else t.parent? x := by
  rw [cut]
  split
  · next h =>
      split
      · next hx => rw [hx, h]
      · rfl
  · next p h =>
      have hsize : id < (t.removeSection p id).size := by
        rw [removeSection, size_modifyContainer]
        exact lt_size_of_parent? h
      rw [parent?_setParent hsize, removeSection, parent?_modifyContainer]

theorem sections_cut (t : Tree) (id x : NodeId) :
    (t.cut id).sections x =
      if t.parent? id = some x then (t.sections x).filter (· ≠ id) else t.sections x := by
  rw [cut]
  split
  · next h => rw [h, if_neg (by simp)]
  · next p h =>
      rw [sections_setParent, sections_removeSection, h]
      by_cases hx : x = p
      · rw [if_pos hx, if_pos (congrArg some hx.symm)]
      · rw [if_neg hx, if_neg fun heq => hx (Option.some.inj heq).symm]

theorem parent?_link {t : Tree} {id : NodeId} (h : id < t.size) (parent x : NodeId) :
    (t.link id parent).parent? x = if x = id then some parent else t.parent? x := by
  have hsize : id < (t.appendSection parent id).size := by
    rwa [appendSection, size_modifyContainer]
  rw [link, parent?_setParent hsize, appendSection, parent?_modifyContainer]

theorem sections_link {t : Tree} {parent : NodeId} (h : t.HasContainer parent) (id x : NodeId) :
    (t.link id parent).sections x =
      if x = parent then t.sections x ++ [id] else t.sections x := by
  rw [link, sections_setParent, sections_appendSection h]

@[simp] theorem parent?_changeOptions (t : Tree) (id : NodeId) (f : Options → Options)
    (x : NodeId) : (t.changeOptions id f).parent? x = t.parent? x := by
  rw [changeOptions, parent?_modifyContainer]

@[simp] theorem sections_changeOptions (t : Tree) (id : NodeId) (f : Options → Options)
    (x : NodeId) : (t.changeOptions id f).sections x = t.sections x := by
  rw [changeOptions, sections_modifyContainer]
  split
  · rw [sections]
  · rfl

/-! ## What every edit keeps -/

/-- No slot is given up, containers stay containers of the same header, and
directives stay as they are. -/
structure Keeps (t t' : Tree) : Prop where
  size_le : t.size ≤ t'.size
  container : ∀ {id c}, t.container? id = some c →
    ∃ c', t'.container? id = some c' ∧ c'.header = c.header
  directive : ∀ {id d}, t.content? id = some (.directive d) →
    t'.content? id = some (.directive d)

namespace Keeps

theorem refl (t : Tree) : t.Keeps t :=
  ⟨Nat.le_refl _, fun {_ c} h => ⟨c, h, rfl⟩, fun h => h⟩

theorem trans {t u v : Tree} (h : t.Keeps u) (h' : u.Keeps v) : t.Keeps v where
  size_le := Nat.le_trans h.size_le h'.size_le
  container := fun hc => by
    obtain ⟨c', hc', hh⟩ := h.container hc
    obtain ⟨c'', hc'', hh'⟩ := h'.container hc'
    exact ⟨c'', hc'', hh'.trans hh⟩
  directive := fun hd => h'.directive (h.directive hd)

theorem hasContainer {t u : Tree} (h : t.Keeps u) {id : NodeId} (hc : t.HasContainer id) :
    u.HasContainer id := by
  obtain ⟨c, hc⟩ := hc
  obtain ⟨c', hc', -⟩ := h.container hc
  exact ⟨c', hc'⟩

theorem modifyContainer (t : Tree) (id : NodeId) {f : Container → Container}
    (hf : ∀ c, (f c).header = c.header) : t.Keeps (t.modifyContainer id f) where
  size_le := Nat.le_of_eq (size_modifyContainer t id f).symm
  container := fun {x c} h => by
    refine ⟨if x = id then f c else c, ?_, ?_⟩
    · rw [container?_modifyContainer, h]; rfl
    · split
      · exact hf c
      · rfl
  directive := fun h => by rw [content?_modifyContainer, h]

theorem setParent (t : Tree) (id : NodeId) (p : Option NodeId) : t.Keeps (t.setParent id p) where
  size_le := Nat.le_of_eq (size_setParent t id p).symm
  container := fun {_ c} h => ⟨c, by rw [container?_setParent, h], rfl⟩
  directive := fun h => by rw [content?_setParent, h]

theorem extend (t : Tree) (ns : List Node) : t.Keeps (t.extend ns) where
  size_le := by rw [size_extend]; exact Nat.le_add_right _ _
  container := fun {x c} h => by
    have hx : x < t.size := HasContainer.lt_size ⟨c, h⟩
    exact ⟨c, by rw [container?_congr (content?_extend_of_lt hx ns), h], rfl⟩
  directive := fun {x d} h => by
    have hx : x < t.size := Nat.lt_of_not_le fun hle => by
      rw [content?_eq_none.mpr hle] at h; cases h
    rw [content?_extend_of_lt hx, h]

theorem appendSection (t : Tree) (parent id : NodeId) : t.Keeps (t.appendSection parent id) :=
  modifyContainer t parent fun _ => rfl

theorem removeSection (t : Tree) (parent id : NodeId) : t.Keeps (t.removeSection parent id) :=
  modifyContainer t parent fun _ => rfl

theorem append (t : Tree) (parent : NodeId) (s : Section) : t.Keeps (t.append parent s).1 := by
  rw [append_eq]
  exact (extend t _).trans (appendSection _ parent _)

theorem cut (t : Tree) (id : NodeId) : t.Keeps (t.cut id) := by
  rw [Tree.cut]
  split
  · exact refl t
  · next p _ => exact (removeSection t p id).trans (setParent _ id none)

theorem link (t : Tree) (id parent : NodeId) : t.Keeps (t.link id parent) :=
  (appendSection t parent id).trans (setParent _ id (some parent))

theorem changeOptions (t : Tree) (id : NodeId) (f : Options → Options) :
    t.Keeps (t.changeOptions id f) :=
  modifyContainer t id fun _ => rfl

end Keeps

/-! ## What a single edit can do -/

theorem attach_eq_ok {t : Tree} {parent : NodeId} {s : Section} {r : Tree × NodeId} :
    t.attach parent s = .ok r ↔ t.HasContainer parent ∧ t.append parent s = r := by
  simp only [attach, bind_eq_ok, pure_eq_ok, Except.ok.injEq, container_eq_ok, HasContainer,
    exists_and_right]

/-- An attachment is refused for the reason that its parent is. -/
theorem attach_eq_error {t : Tree} {parent : NodeId} {s : Section} {e : Error} :
    t.attach parent s = .error e ↔ t.Refuses parent e := by
  simp [attach, bind_eq_error, container_eq_error]

theorem cut_of_detach {t t' : Tree} {id : NodeId} (h : t.detach id = .ok t') :
    id < t.size ∧ t' = t.cut id := by
  rw [detach, bind_eq_ok] at h
  obtain ⟨n, hn, h⟩ := h
  rw [node_eq_ok] at hn
  refine ⟨node?_isSome.mp ⟨n, hn⟩, ?_⟩
  rw [cut, (node?_eq_some.mp hn).2]
  cases hp : n.parent with
  | none =>
      rw [hp, pure_eq_ok] at h
      exact (Except.ok.inj h).symm
  | some p =>
      rw [hp] at h
      obtain ⟨c, -, h⟩ := bind_eq_ok.mp h
      exact (Except.ok.inj h).symm

theorem link_of_reattach {t t' : Tree} {id parent : NodeId}
    (h : t.reattach id parent = .ok t') :
    id < t.size ∧ t.HasContainer parent ∧ t.isWithin id parent = false
      ∧ t' = (t.cut id).link id parent := by
  rw [reattach, bind_eq_ok] at h
  obtain ⟨n, -, h⟩ := h
  obtain ⟨c, hc, h⟩ := bind_eq_ok.mp h
  cases hw : t.isWithin id parent with
  | true => simp [hw] at h
  | false =>
      rw [hw] at h
      obtain ⟨u, hd, h⟩ := bind_eq_ok.mp h
      obtain ⟨hid, rfl⟩ := cut_of_detach hd
      exact ⟨hid, ⟨c, container_eq_ok.mp hc⟩, rfl, (Except.ok.inj h).symm⟩

theorem changeOptions_of_setOption {t t' : Tree} {id : NodeId} {key : String} {value : Value}
    (h : t.setOption id key value = .ok t') :
    t' = t.changeOptions id (·.insert key value) := by
  rw [setOption, bind_eq_ok] at h
  obtain ⟨c, -, h⟩ := h
  exact (Except.ok.inj h).symm

theorem changeOptions_of_optionEntry {t t' : Tree} {id : NodeId} {key : String}
    {default value : Value} (h : t.optionEntry id key default = .ok (t', value)) :
    ∃ f, t' = t.changeOptions id f := by
  rw [optionEntry, bind_eq_ok] at h
  obtain ⟨c, -, h⟩ := h
  cases hv : c.options.get? key with
  | some v =>
      rw [hv] at h
      obtain ⟨rfl, -⟩ := Prod.mk.inj (Except.ok.inj h)
      exact ⟨fun o => o, (modifyContainer_id t id).symm⟩
  | none =>
      rw [hv] at h
      obtain ⟨u, hs, h⟩ := bind_eq_ok.mp h
      obtain ⟨rfl, -⟩ := Prod.mk.inj (Except.ok.inj h)
      exact ⟨_, changeOptions_of_setOption hs⟩

theorem changeOptions_changeOptions (t : Tree) (id : NodeId) (f g : Options → Options) :
    (t.changeOptions id f).changeOptions id g = t.changeOptions id fun o => g (f o) :=
  modifyContainer_modifyContainer t id _ _

/-- What an edit that succeeds makes of a tree. -/
inductive Makes (t : Tree) : Edit → Tree → Prop
  | attach {parent : NodeId} (s : Section) (hp : t.HasContainer parent) :
      Makes t (.attach parent s) (t.append parent s).1
  | detach {id : NodeId} (hid : id < t.size) : Makes t (.detach id) (t.cut id)
  | reattach {id parent : NodeId} (hid : id < t.size) (hp : t.HasContainer parent)
      (hw : t.isWithin id parent = false) :
      Makes t (.reattach id parent) ((t.cut id).link id parent)
  | setOption (id : NodeId) (key : String) (value : Value) :
      Makes t (.setOption id key value) (t.changeOptions id (·.insert key value))
  | optionEntry (id : NodeId) (key : String) (default : Value) (write : Value → Value)
      (f : Options → Options) : Makes t (.optionEntry id key default write) (t.changeOptions id f)

theorem makes_of_apply {t t' : Tree} {e : Edit} (h : e.apply t = .ok t') : t.Makes e t' := by
  cases e with
  | attach parent s =>
      obtain ⟨r, hr, h⟩ := bind_eq_ok.mp h
      obtain ⟨hp, rfl⟩ := attach_eq_ok.mp hr
      obtain rfl := Except.ok.inj h
      exact .attach s hp
  | detach id =>
      obtain ⟨hid, rfl⟩ := cut_of_detach h
      exact .detach hid
  | reattach id parent =>
      obtain ⟨hid, hp, hw, rfl⟩ := link_of_reattach h
      exact .reattach hid hp hw
  | setOption id key value =>
      obtain rfl := changeOptions_of_setOption h
      exact .setOption id key value
  | optionEntry id key default write =>
      obtain ⟨⟨u, value⟩, hr, h⟩ := bind_eq_ok.mp h
      obtain ⟨f, rfl⟩ := changeOptions_of_optionEntry hr
      obtain rfl := changeOptions_of_setOption h
      rw [changeOptions_changeOptions]
      exact .optionEntry id key default write _

theorem edit_eq_or_makes (t : Tree) (e : Edit) : t.edit e = t ∨ t.Makes e (t.edit e) := by
  rw [edit]
  cases h : e.apply t with
  | error err => exact Or.inl rfl
  | ok t' => exact Or.inr (makes_of_apply h)

/-- All that an edit can do to a tree. -/
theorem edit_cases (t : Tree) (e : Edit) :
    t.edit e = t
      ∨ (∃ parent s, t.HasContainer parent ∧ t.edit e = (t.append parent s).1)
      ∨ (∃ id, t.edit e = t.cut id)
      ∨ (∃ id parent, id < t.size ∧ t.HasContainer parent ∧ t.isWithin id parent = false
          ∧ t.edit e = (t.cut id).link id parent)
      ∨ ∃ id f, t.edit e = t.changeOptions id f := by
  rcases t.edit_eq_or_makes e with h | h
  · exact Or.inl h
  · refine Or.inr ?_
    generalize t.edit e = t' at h ⊢
    cases h with
    | attach s hp => exact Or.inl ⟨_, s, hp, rfl⟩
    | detach hid => exact Or.inr (Or.inl ⟨_, rfl⟩)
    | reattach hid hp hw => exact Or.inr (Or.inr (Or.inl ⟨_, _, hid, hp, hw, rfl⟩))
    | setOption id key value => exact Or.inr (Or.inr (Or.inr ⟨id, _, rfl⟩))
    | optionEntry id key default write f => exact Or.inr (Or.inr (Or.inr ⟨id, f, rfl⟩))

/-- An edit gives up no slot, and turns no node into another. -/
theorem keeps_edit (t : Tree) (e : Edit) : t.Keeps (t.edit e) := by
  rcases t.edit_cases e with h | ⟨p, s, -, h⟩ | ⟨id, h⟩ | ⟨id, p, -, -, -, h⟩ | ⟨id, f, h⟩
  · rw [h]; exact .refl t
  · rw [h]; exact .append t p s
  · rw [h]; exact .cut t id
  · rw [h]; exact (Keeps.cut t id).trans (.link _ id p)
  · rw [h]; exact .changeOptions t id f

/-! ## New leaves -/

theorem parent?_addLeaf (t : Tree) (parent : NodeId) (content : Content) (x : NodeId) :
    (t.addLeaf parent content).parent? x = if x = t.size then some parent else t.parent? x := by
  rw [addLeaf, appendSection, parent?_modifyContainer, parent?_push]

/-- A new leaf is seen in the list of its parent and nowhere else. -/
theorem sections_addLeaf {t : Tree} {parent : NodeId} {content : Content}
    (hp : t.HasContainer parent) (hc : content.Childless) (x : NodeId) :
    (t.addLeaf parent content).sections x =
      if x = parent then t.sections x ++ [t.size] else t.sections x := by
  have hpush : ∀ x, (t.push ⟨some parent, content⟩).sections x = t.sections x := fun x => by
    by_cases hx : x = t.size
    · have hnone : t.container? x = none := by
        cases h : t.container? x with
        | none => rfl
        | some c => exact absurd (HasContainer.lt_size ⟨c, h⟩) (hx ▸ Nat.lt_irrefl _)
      rw [sections_of_not_container hnone]
      cases h : (t.push ⟨some parent, content⟩).container? x with
      | none => rw [sections_of_not_container h]
      | some c =>
          rw [sections_of_container? h]
          rw [← content?_eq_some_container, content?_push, if_pos hx] at h
          obtain rfl := Option.some.inj h
          exact hc
    · have h : (t.push ⟨some parent, content⟩).container? x = t.container? x :=
        container?_congr (by rw [content?_push, if_neg hx])
      rw [sections, h, sections]
  have hp' : (t.push ⟨some parent, content⟩).HasContainer parent := by
    rw [push_eq_extend]
    exact (Keeps.extend t _).hasContainer hp
  rw [addLeaf, sections_appendSection hp', hpush]

/-- A container that is attached without sections is a leaf. -/
theorem append_empty_eq_addLeaf (t : Tree) (parent : NodeId) (header : Option String)
    (options : Options) : (t.append parent (.container header options [])).1 =
      t.addLeaf parent (.container ⟨header, options, []⟩) := by
  rw [append_eq, Section.layout, Section.starts, Section.layoutOfAll, addLeaf, push_eq_extend]

/-- An attachment gives no parent to what is in the tree already. -/
theorem parent?_append_of_lt {t : Tree} {x : NodeId} (hx : x < t.size) (parent : NodeId)
    (s : Section) : (t.append parent s).1.parent? x = t.parent? x := by
  rw [append_eq, appendSection, parent?_modifyContainer, parent?, node?_extend_of_lt hx, parent?]

theorem parent?_append_size (t : Tree) (parent : NodeId) (s : Section) :
    (t.append parent s).1.parent? t.size = some parent := by
  rw [append_eq, appendSection, parent?_modifyContainer, parent?, node?_extend,
    if_neg (Nat.lt_irrefl _), Nat.sub_self]
  cases s <;> rfl

theorem parent?_append_empty (t : Tree) (parent : NodeId) (header : Option String)
    (options : Options) (x : NodeId) :
    (t.append parent (.container header options [])).1.parent? x =
      if x = t.size then some parent else t.parent? x := by
  rw [append_empty_eq_addLeaf, parent?_addLeaf]

theorem sections_append_empty {t : Tree} {parent : NodeId} (hp : t.HasContainer parent)
    (header : Option String) (options : Options) (x : NodeId) :
    (t.append parent (.container header options [])).1.sections x =
      if x = parent then t.sections x ++ [t.size] else t.sections x := by
  have hchildless : (Content.container ⟨header, options, []⟩).Childless := rfl
  rw [append_empty_eq_addLeaf, sections_addLeaf hp hchildless]

mutual

/-- What survives a new leaf survives the attachment of any section. -/
theorem append_induction {P : Tree → Prop}
    (leaf : ∀ {t parent content}, P t → t.HasContainer parent → content.Childless →
      P (t.addLeaf parent content)) {t : Tree} {parent : NodeId} (ht : P t)
    (hp : t.HasContainer parent) : ∀ s : Section, P (t.append parent s).1
  | .directive d => by
      have h : (t.append parent (.directive d)).1 = t.addLeaf parent (.directive d) := by
        rw [append_eq, Section.layout, addLeaf, push_eq_extend]
      rw [h]
      exact leaf ht hp trivial
  | .container header options sections => by
      have h := append_empty_eq_addLeaf t parent header options
      have hnew : (t.append parent (.container header options [])).1.HasContainer t.size :=
        ⟨_, container?_append_empty hp.lt_size header options⟩
      rw [append_container hp.lt_size]
      exact appendAll_induction leaf (h ▸ leaf ht hp rfl) hnew sections

theorem appendAll_induction {P : Tree → Prop}
    (leaf : ∀ {t parent content}, P t → t.HasContainer parent → content.Childless →
      P (t.addLeaf parent content)) {t : Tree} {parent : NodeId} (ht : P t)
    (hp : t.HasContainer parent) : ∀ sections : List Section, P (t.appendAll parent sections)
  | [] => ht
  | s :: rest =>
      appendAll_induction leaf (append_induction leaf ht hp s)
        ((Keeps.append t parent s).hasContainer hp) rest

end

end Tree

end NginxConfig
