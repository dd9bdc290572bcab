import Mathlib.Logic.Function.Basic
import NginxConfig.Builder
import NginxConfig.Proofs.Fallible
import NginxConfig.Proofs.Registry.Checks

/-!
# Histories of registrations

The owner of a plugin is kept with the plugin and not in any registry, so a
history is about all registries that are filled from one stock (`System`).
Every request is answered by the checks in their order, and either records the
plugin and gives it its owner, or changes nothing; so the registries stay
consistent, and who has an owner keeps it.
-/

namespace NginxConfig.Registry

theorem register_eq_ok {r r' : Registry} {p p' : Instance} {owner : BuilderId}
    {native : List String} :
    r.register p owner native = .ok (r', p') ↔
      r.rejection? p native = none ∧ r' = r.record p.id p.plugin
        ∧ p' = { p with owner := some owner } := by
  rw [register]
  cases r.rejection? p native with
  | none =>
      simp only [Except.ok.injEq, Prod.mk.injEq, true_and]
      exact and_congr eq_comm eq_comm
  | some e => simp

theorem register_eq_error {r : Registry} {p : Instance} {owner : BuilderId}
    {native : List String} {e : Error} :
    r.register p owner native = .error e ↔ r.rejection? p native = some e := by
  rw [register]
  cases r.rejection? p native with
  | none => simp
  | some e' => simp

/-- Registries and the stock of plugins that they are filled from. -/
structure System where
  registries : Nat → Registry
  stock : Nat → Instance

/-- A plugin of the stock is to be registered for a builder. -/
structure Request where
  registry : Nat
  plugin : Nat
  owner : BuilderId
  native : List String

namespace System

/-- Nothing is registered yet, but plugins may have been taken elsewhere. -/
def start (stock : Nat → Instance) : System :=
  ⟨fun _ => .empty, stock⟩

def answer (s : System) (q : Request) : Except Error (Registry × Instance) :=
  (s.registries q.registry).register (s.stock q.plugin) q.owner q.native

def after (s : System) (q : Request) : System :=
  match s.answer q with
  | .error _ => s
  | .ok (r, p) => ⟨Function.update s.registries q.registry r, Function.update s.stock q.plugin p⟩

def run (s : System) (requests : List Request) : System :=
  requests.foldl after s

def Sound (s : System) : Prop :=
  ∀ i, (s.registries i).Consistent

theorem answer_cases (s : System) (q : Request) :
    (∃ e, s.answer q = .error e ∧ s.after q = s)
      ∨ ∃ r p, s.answer q = .ok (r, p)
        ∧ s.after q =
          ⟨Function.update s.registries q.registry r, Function.update s.stock q.plugin p⟩ := by
  rw [after]
  cases s.answer q with
  | error e => exact Or.inl ⟨e, rfl, rfl⟩
  | ok done => exact Or.inr ⟨done.1, done.2, rfl, rfl⟩

theorem Sound.start (stock : Nat → Instance) : (start stock).Sound :=
  fun _ => Consistent.empty

theorem Sound.answer_eq_ok {s : System} (h : s.Sound) {q : Request} {r : Registry} {p : Instance}
    (ha : s.answer q = .ok (r, p)) :
    (s.registries q.registry).Accepts q.native (s.stock q.plugin)
      ∧ r = (s.registries q.registry).record (s.stock q.plugin).id (s.stock q.plugin).plugin
      ∧ p = { s.stock q.plugin with owner := some q.owner } := by
  obtain ⟨hnone, hr, hp⟩ := register_eq_ok.mp ha
  exact ⟨(h q.registry).rejection?_eq_none.mp hnone, hr, hp⟩

theorem Sound.after {s : System} (h : s.Sound) (q : Request) : (s.after q).Sound := by
  rcases s.answer_cases q with ⟨e, -, hafter⟩ | ⟨r, p, ha, hafter⟩
  · rw [hafter]
    exact h
  · obtain ⟨haccepts, rfl, -⟩ := h.answer_eq_ok ha
    rw [hafter]
    intro i
    show (Function.update s.registries q.registry _ i).Consistent
    by_cases hi : i = q.registry
    · subst hi
      rw [Function.update_self]
      exact (h _).record_accepted haccepts
    · rw [Function.update_of_ne hi]
      exact h i

theorem Sound.run {s : System} (h : s.Sound) (requests : List Request) :
    (s.run requests).Sound := by
  induction requests generalizing s with
  | nil => exact h
  | cons q rest ih => exact ih (h.after q)

/-- A plugin that has an owner is not accepted, so its owner stays. -/
theorem Sound.owner_after {s : System} (h : s.Sound) {i : Nat} {owner : BuilderId}
    (howner : (s.stock i).owner = some owner) (q : Request) :
    ((s.after q).stock i).owner = some owner := by
  rcases s.answer_cases q with ⟨e, -, hafter⟩ | ⟨r, p, ha, hafter⟩
  · rw [hafter]
    exact howner
  · obtain ⟨haccepts, -, -⟩ := h.answer_eq_ok ha
    have hi : i ≠ q.plugin := by
      rintro rfl
      rw [haccepts.unowned] at howner
      cases howner
    rw [hafter]
    exact (congrArg Instance.owner (Function.update_of_ne hi p s.stock)).trans howner

theorem Sound.owner_run {s : System} (h : s.Sound) {i : Nat} {owner : BuilderId}
    (howner : (s.stock i).owner = some owner) (requests : List Request) :
    ((s.run requests).stock i).owner = some owner := by
  induction requests generalizing s with
  | nil => exact howner
  | cons q rest ih => exact ih (h.after q) (h.owner_after howner q)

/-- **A registration passes every check or changes nothing**, whatever was
registered before, in this registry or in others: the answer is the one that
the checks give in their order, the plugins and the operations of a registry
are records of the same thing, and the first owner of a plugin is its last. -/
theorem requests_keep_registries_and_owners (stock : Nat → Instance) (requests : List Request)
    (q : Request) :
    let s := (start stock).run requests
    let r := s.registries q.registry
    let p := s.stock q.plugin
    ((∃ done, s.answer q = .ok done) ↔ r.Accepts q.native p)
      ∧ (∀ e, s.answer q = .error e ↔ r.Rejects q.native p e)
      ∧ (r.Accepts q.native p → ∃ r',
          s.after q = ⟨Function.update s.registries q.registry r',
            Function.update s.stock q.plugin { p with owner := some q.owner }⟩
          ∧ r'.plugins = r.plugins.push ⟨p.id, p.plugin⟩)
      ∧ (¬ r.Accepts q.native p → s.after q = s)
      ∧ (r.plugins.toList.map Registered.name).Nodup
      ∧ r.operationNames = r.plugins.toList.flatMap Registered.operations
      ∧ r.operationNames.Nodup
      ∧ (∀ op holder code, r.lookup? op = some (holder, code) ↔
          holder ∈ r.plugins ∧ holder.plugin.operations.get? op = some code)
      ∧ (∀ op holder, (∃ code, r.lookup? op = some (holder, code)) ↔
          holder ∈ r.plugins ∧ op ∈ holder.operations)
      ∧ (∀ op index code, r.methods.get? op = some (index, code) → index < r.size)
      ∧ ∀ i owner, (s.stock i).owner = some owner →
          ∀ later, ((s.run later).stock i).owner = some owner := by
  intro s r p
  have hsound : s.Sound := (Sound.start stock).run requests
  have h : r.Consistent := hsound q.registry
  have haccepts : (∃ done, s.answer q = .ok done) ↔ r.Accepts q.native p := by
    rw [← h.rejection?_eq_none]
    constructor
    · rintro ⟨⟨r', p'⟩, ha⟩
      exact (register_eq_ok.mp ha).1
    · intro hnone
      exact ⟨_, register_eq_ok.mpr ⟨hnone, rfl, rfl⟩⟩
  refine ⟨haccepts, fun e => register_eq_error.trans h.rejection?_eq_some, fun hacc => ?_,
    fun hrej => ?_, h.names_nodup, h.operationNames_eq, r.methods.keys_nodup,
    fun op holder code => h.lookup?_eq_some, fun op holder => ?_,
    fun op index code => h.index_lt, fun i owner howner => hsound.owner_run howner⟩
  · rcases s.answer_cases q with ⟨e, ha, -⟩ | ⟨r', p', ha, hafter⟩
    · obtain ⟨done, hok⟩ := haccepts.mpr hacc
      rw [ha] at hok
      cases hok
    · obtain ⟨-, rfl, rfl⟩ := hsound.answer_eq_ok ha
      exact ⟨_, hafter, rfl⟩
  · rcases s.answer_cases q with ⟨e, -, hafter⟩ | ⟨r', p', ha, -⟩
    · exact hafter
    · exact absurd (haccepts.mp ⟨_, ha⟩) hrej
  · rw [mem_operations]
    constructor
    · rintro ⟨code, hfound⟩
      obtain ⟨hmem, hcode⟩ := h.lookup?_eq_some.mp hfound
      exact ⟨hmem, code, hcode⟩
    · rintro ⟨hmem, code, hcode⟩
      exact ⟨code, h.lookup?_eq_some.mpr ⟨hmem, hcode⟩⟩

end System

end NginxConfig.Registry

namespace NginxConfig

/-- A builder checks a plugin against its own operations, and owns it from then on. -/
theorem Builder.register_eq_ok {b b' : Builder} {p p' : Instance} :
    b.register p = .ok (b', p') ↔
      b.registry.rejection? p nativeOperations = none
        ∧ b' = { b with registry := b.registry.record p.id p.plugin }
        ∧ p' = { p with owner := some b.id } := by
  rw [register, bind_eq_ok]
  constructor
  · rintro ⟨⟨r, q⟩, hregister, heq⟩
    obtain ⟨hnone, rfl, rfl⟩ := Registry.register_eq_ok.mp hregister
    obtain ⟨rfl, rfl⟩ := Prod.mk.inj (Except.ok.inj heq)
    exact ⟨hnone, rfl, rfl⟩
  · rintro ⟨hnone, rfl, rfl⟩
    exact ⟨_, Registry.register_eq_ok.mpr ⟨hnone, rfl, rfl⟩, rfl⟩

end NginxConfig
