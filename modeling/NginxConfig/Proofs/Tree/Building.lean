import NginxConfig.Proofs.Tree.Edits

/-!
# Building in place

A container can be finished before it goes into a tree, or go there first and
be finished where it stands. The slots are handed out in one walk over the
whole content in the first case, and piece by piece between other changes in
the second. They come out the same (`attach_build`): what is added last gets the
last slots either way, and an option takes none.

The two ways meet at every step (`apply_append`), because the closed form of an
attachment has the options of the new container in its first node and the slots
of its sections behind it.
-/

namespace NginxConfig

/-- A step in the making of a container. -/
inductive BuildStep where
  | setOption (key : String) (value : Value)
  | addSection (s : Section)

/-- Takes a step on a container that is in no tree. -/
def BuildStep.extend (s : Section) : BuildStep → Section
  | .setOption key value => s.setOption key value
  | .addSection child => s.addSection child

/-- Takes a step on a node of a tree. -/
def BuildStep.apply (t : Tree) (id : NodeId) : BuildStep → Except Error Tree
  | .setOption key value => t.setOption id key value
  | .addSection child => return (← t.attach id child).1

def Section.build (s : Section) (steps : List BuildStep) : Section :=
  steps.foldl BuildStep.extend s

namespace Tree

def build (t : Tree) (id : NodeId) (steps : List BuildStep) : Except Error Tree :=
  steps.foldlM (fun t step => step.apply t id) t

section Attached

variable {t : Tree} {parent : NodeId} (h : t.HasContainer parent) (header : Option String)
  (options : Options) (sections : List Section)

include h

theorem hasContainer_append :
    (t.append parent (.container header options sections)).1.HasContainer t.size := by
  have hempty := container?_append_empty h.lt_size header options
  have hslot : t.size < (t.append parent (.container header options [])).1.size :=
    HasContainer.lt_size ⟨_, hempty⟩
  rw [append_container h.lt_size]
  exact ⟨_, container?_appendAll hslot hempty sections⟩

/-- The options of a new container are in its own slot. -/
theorem append_changeOptions (f : Options → Options) :
    (t.append parent (.container header options sections)).1.changeOptions t.size f =
      (t.append parent (.container header (f options) sections)).1 := by
  have hsize : (t.appendSection parent t.size).size = t.size := by simp [appendSection]
  have hnode := modifyContainer_size_extend (t.appendSection parent t.size) (some parent)
    ⟨header, options, Section.starts (t.size + 1) sections⟩
    fun c => { c with options := f c.options }
  rw [hsize] at hnode
  rw [append_eq, append_eq, appendSection_extend h.lt_size, appendSection_extend h.lt_size,
    Section.layout, Section.layout, extend_cons, changeOptions,
    modifyContainer_extend (by simp [hsize]), hnode]
  exact (extend_cons _ _ _).symm

/-- A section that is attached behind the content of a new container gets the
slots behind that content. -/
theorem append_append (s : Section) :
    ((t.append parent (.container header options sections)).1.append t.size s).1 =
      (t.append parent (.container header options (sections ++ [s]))).1 := by
  rw [append_container h.lt_size header options sections,
    append_container h.lt_size header options (sections ++ [s]), appendAll, appendAll,
    List.foldl_append]
  rfl

/-- The two ways to take a step meet. -/
theorem apply_append (step : BuildStep) :
    step.apply (t.append parent (.container header options sections)).1 t.size =
      .ok (t.append parent (step.extend (.container header options sections))).1 := by
  have hnew := hasContainer_append h header options sections
  cases step with
  | setOption key value =>
      obtain ⟨c, hc⟩ := hnew
      rw [BuildStep.apply, setOption, container_eq_ok.mpr hc]
      exact congrArg Except.ok (append_changeOptions h header options sections (·.insert key value))
  | addSection child =>
      rw [BuildStep.apply, attach_eq_ok.mpr ⟨hnew, rfl⟩]
      exact congrArg Except.ok (append_append h header options sections child)

theorem build_append (steps : List BuildStep) :
    (t.append parent (.container header options sections)).1.build t.size steps =
      .ok (t.append parent ((Section.container header options sections).build steps)).1 := by
  induction steps generalizing options sections with
  | nil => rfl
  | cons step rest ih =>
      rw [build, List.foldlM_cons, apply_append h header options sections step, ok_bind]
      -- A step makes a container of a container, so that the rest is again about one.
      cases step with
      | setOption key value => exact ih (options.insert key value) sections
      | addSection child => exact ih options (sections ++ [child])

end Attached

/-- **To build and to attach can be done in either order.** A container that is
finished and then attached makes the same tree, and has the same slot in it, as
one that is attached and then finished where it stands. Neither way works
unless the parent is a container, and then both do. -/
theorem attach_build (t : Tree) (parent : NodeId) (header : Option String) (options : Options)
    (sections : List Section) (steps : List BuildStep) :
    let start := Section.container header options sections
    t.attach parent (start.build steps) = (do
        let (attached, id) ← t.attach parent start
        return (← attached.build id steps, id))
      ∧ (t.HasContainer parent ↔
          ∃ built, t.attach parent (start.build steps) = .ok (built, t.size)) := by
  intro start
  by_cases h : t.HasContainer parent
  · have hstart : t.attach parent start = .ok (t.append parent start) :=
      attach_eq_ok.mpr ⟨h, rfl⟩
    have hbuilt : t.attach parent (start.build steps) =
        .ok ((t.append parent (start.build steps)).1, t.size) :=
      attach_eq_ok.mpr ⟨h, Prod.ext rfl (append_snd t parent _)⟩
    have hplace := build_append h header options sections steps
    refine ⟨?_, iff_of_true h ⟨_, hbuilt⟩⟩
    rw [hbuilt, hstart, ok_bind]
    simp only [append_snd]
    rw [hplace]
    rfl
  · refine ⟨?_, iff_of_false h fun ⟨_, hok⟩ => h (attach_eq_ok.mp hok).1⟩
    -- Both ways begin with the same look at the parent.
    cases hp : t.container parent with
    | ok c => exact absurd ⟨c, container_eq_ok.mp hp⟩ h
    | error e =>
        rw [attach, attach, hp]
        rfl

end Tree

end NginxConfig
