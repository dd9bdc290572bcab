import Mathlib.Logic.Function.Basic
import NginxConfig.Proofs.Builder.Growth
import NginxConfig.Proofs.Registry.Registration

/-!
# Plugins with one owner

Who owns a plugin is written down with the plugin. Which plugins a builder has is
written down in the registry of the builder. A plugin can be offered to any number
of builders, in any order, and each of them decides by itself.

The two records agree at all times: the owner of a plugin has recorded it once, and
no other builder has (`Sound.count_eq`). An offer that is declined leaves no trace,
so a plugin that was declined is as good as one that was never offered.
-/

namespace NginxConfig

/-- All builders, known by their numbers, and a stock of plugins to be offered to
them. -/
structure Workshop where
  builders : BuilderId → Builder
  stock : Nat → Instance

/-- A plugin of the stock is offered to a builder. -/
structure Offer where
  builder : BuilderId
  plugin : Nat

namespace Workshop

/-- Every builder is new, and nobody owns a plugin of the stock. -/
def start (settings : BuilderId → Settings) (plugins : Nat → Plugin) : Workshop :=
  ⟨fun id => .new id (settings id), fun n => ⟨.pooled n, plugins n, none⟩⟩

def answer (w : Workshop) (o : Offer) : Except Error (Builder × Instance) :=
  (w.builders o.builder).register (w.stock o.plugin)

def after (w : Workshop) (o : Offer) : Workshop :=
  match w.answer o with
  | .error _ => w
  | .ok (b, p) => ⟨Function.update w.builders o.builder b, Function.update w.stock o.plugin p⟩

def run (w : Workshop) (offers : List Offer) : Workshop :=
  offers.foldl after w

def owner? (w : Workshop) (n : Nat) : Option BuilderId :=
  (w.stock n).owner

/-- How often a builder has recorded a plugin of the stock. -/
def timesRecorded (w : Workshop) (id : BuilderId) (n : Nat) : Nat :=
  ((w.builders id).registry.plugins.toList.map Registered.id).count (.pooled n)

/-- The builder accepts the plugin as it is now. -/
def Accepts (w : Workshop) (o : Offer) : Prop :=
  (w.builders o.builder).registry.Accepts nativeOperations (w.stock o.plugin)

/-- The builder has recorded the plugin and owns it. -/
def taken (w : Workshop) (o : Offer) : Workshop :=
  let b := w.builders o.builder
  let p := w.stock o.plugin
  ⟨Function.update w.builders o.builder { b with registry := b.registry.record p.id p.plugin },
    Function.update w.stock o.plugin { p with owner := some b.id }⟩

theorem after_of_error {w : Workshop} {o : Offer} {e : Error} (h : w.answer o = .error e) :
    w.after o = w := by
  rw [after, h]

theorem run_cons (w : Workshop) (o : Offer) (later : List Offer) :
    w.run (o :: later) = (w.after o).run later := rfl

section Taken

variable (w : Workshop) (o : Offer)

theorem builders_taken :
    (w.taken o).builders = Function.update w.builders o.builder
      { w.builders o.builder with
        registry := (w.builders o.builder).registry.record (w.stock o.plugin).id
          (w.stock o.plugin).plugin } := rfl

theorem registry_taken (id : BuilderId) :
    ((w.taken o).builders id).registry =
      if id = o.builder then
        (w.builders id).registry.record (w.stock o.plugin).id (w.stock o.plugin).plugin
      else (w.builders id).registry := by
  rw [builders_taken]
  by_cases hid : id = o.builder
  · subst hid
    rw [if_pos rfl, Function.update_self]
  · rw [if_neg hid, Function.update_of_ne hid]

theorem builder_id_taken (id : BuilderId) :
    ((w.taken o).builders id).id = (w.builders id).id := by
  rw [builders_taken]
  by_cases hid : id = o.builder
  · subst hid
    rw [Function.update_self]
  · rw [Function.update_of_ne hid]

theorem stock_taken (n : Nat) :
    (w.taken o).stock n =
      if n = o.plugin then { w.stock n with owner := some (w.builders o.builder).id }
      else w.stock n := by
  have hstock : (w.taken o).stock = Function.update w.stock o.plugin
      { w.stock o.plugin with owner := some (w.builders o.builder).id } := rfl
  rw [hstock]
  by_cases hn : n = o.plugin
  · subst hn
    rw [if_pos rfl, Function.update_self]
  · rw [if_neg hn, Function.update_of_ne hn]

end Taken

/-! ## The two records -/

/-- Builders and plugins are what they were at the start, but for who owns what. The
owner of a plugin has recorded it once, and nobody else has. -/
structure Sound (plugins : Nat → Plugin) (w : Workshop) : Prop where
  builder_id : ∀ id, (w.builders id).id = id
  consistent : ∀ id, (w.builders id).registry.Consistent
  stock_eq : ∀ n, w.stock n = ⟨.pooled n, plugins n, w.owner? n⟩
  plugin_eq : ∀ id, ∀ q ∈ (w.builders id).registry.plugins, ∀ n, q.id = .pooled n →
    q.plugin = plugins n
  count_eq : ∀ id n, w.timesRecorded id n = if w.owner? n = some id then 1 else 0

namespace Sound

variable {plugins : Nat → Plugin} {w : Workshop}

theorem start (settings : BuilderId → Settings) (plugins : Nat → Plugin) :
    (start settings plugins).Sound plugins where
  builder_id := fun _ => rfl
  consistent := Registry.consistent_initial
  stock_eq := fun _ => rfl
  plugin_eq := fun id q hq n hid => by
    rcases Registry.mem_initial.mp hq with rfl | rfl <;> cases hid
  count_eq := fun id n => by
    have hnot : InstanceId.pooled n ∉ [InstanceId.ofBuilder id, .ofBuilder id] := by simp
    exact List.count_eq_zero.mpr hnot

theorem answer_eq_ok (h : w.Sound plugins) (o : Offer) :
    (∃ done, w.answer o = .ok done) ↔ w.Accepts o := by
  rw [Accepts, ← (h.consistent o.builder).rejection?_eq_none]
  constructor
  · rintro ⟨⟨b, p⟩, ha⟩
    exact (Builder.register_eq_ok.mp ha).1
  · intro hnone
    exact ⟨_, Builder.register_eq_ok.mpr ⟨hnone, rfl, rfl⟩⟩

/-- An offer is accepted, or it is declined and nothing happens. -/
theorem after_cases (h : w.Sound plugins) (o : Offer) :
    w.Accepts o ∧ w.after o = w.taken o ∨ ¬ w.Accepts o ∧ w.after o = w := by
  cases ha : w.answer o with
  | error e =>
      refine Or.inr ⟨fun haccepts => ?_, after_of_error ha⟩
      obtain ⟨done, hdone⟩ := (h.answer_eq_ok o).mpr haccepts
      rw [ha] at hdone
      cases hdone
  | ok done =>
      obtain ⟨b, p⟩ := done
      refine Or.inl ⟨(h.answer_eq_ok o).mp ⟨_, ha⟩, ?_⟩
      obtain ⟨-, rfl, rfl⟩ := Builder.register_eq_ok.mp ha
      rw [Workshop.after, ha]
      rfl

theorem owner?_taken (h : w.Sound plugins) (o : Offer) (n : Nat) :
    (w.taken o).owner? n = if n = o.plugin then some o.builder else w.owner? n := by
  rw [owner?, stock_taken, h.builder_id]
  split <;> rfl

theorem timesRecorded_taken (h : w.Sound plugins) (o : Offer) (id : BuilderId) (n : Nat) :
    (w.taken o).timesRecorded id n =
      w.timesRecorded id n + if id = o.builder ∧ n = o.plugin then 1 else 0 := by
  rw [timesRecorded, registry_taken, h.stock_eq]
  by_cases hid : id = o.builder
  · rw [if_pos hid, Registry.record, Array.toList_push, List.map_append, List.count_append,
      List.map_singleton, List.count_singleton, timesRecorded]
    by_cases hn : n = o.plugin
    · simp [hid, hn]
    · simp [hid, hn, Ne.symm hn]
  · rw [if_neg hid, if_neg fun heq => hid heq.1, Nat.add_zero, timesRecorded]

theorem taken (h : w.Sound plugins) {o : Offer} (haccepts : w.Accepts o) :
    (w.taken o).Sound plugins where
  builder_id := fun id => (builder_id_taken w o id).trans (h.builder_id id)
  consistent := fun id => by
    rw [registry_taken]
    split
    · next hid =>
        subst hid
        exact (h.consistent _).record_accepted haccepts
    · exact h.consistent id
  stock_eq := fun n => by
    rw [h.owner?_taken, stock_taken, h.builder_id]
    split
    · rw [h.stock_eq]
    · exact h.stock_eq n
  plugin_eq := fun id q hq n hn => by
    rw [registry_taken] at hq
    split at hq
    · rw [Registry.record, Array.mem_push] at hq
      rcases hq with hq | rfl
      · exact h.plugin_eq id q hq n hn
      · rw [h.stock_eq] at hn ⊢
        exact congrArg plugins (InstanceId.pooled.inj hn)
    · exact h.plugin_eq id q hq n hn
  count_eq := fun id n => by
    rw [h.timesRecorded_taken, h.owner?_taken, h.count_eq]
    by_cases hn : n = o.plugin
    · -- Nobody owned the plugin, so it was in no registry.
      have hfree : w.owner? n = none := by
        rw [hn]
        exact haccepts.unowned
      rw [hfree]
      simp [hn, eq_comm]
    · simp [hn]

theorem after (h : w.Sound plugins) (o : Offer) : (w.after o).Sound plugins := by
  rcases h.after_cases o with ⟨haccepts, heq⟩ | ⟨-, heq⟩
  · exact heq ▸ h.taken haccepts
  · rw [heq]
    exact h

theorem run (h : w.Sound plugins) (offers : List Offer) : (w.run offers).Sound plugins := by
  induction offers generalizing w with
  | nil => exact h
  | cons o rest ih => exact ih (h.after o)

/-- Who has an owner is accepted by nobody. -/
theorem owner?_after (h : w.Sound plugins) {n : Nat} {id : BuilderId} (howner : w.owner? n = some id)
    (o : Offer) : (w.after o).owner? n = some id := by
  rcases h.after_cases o with ⟨haccepts, heq⟩ | ⟨-, heq⟩
  · have hn : n ≠ o.plugin := by
      rintro rfl
      have hfree : w.owner? o.plugin = none := haccepts.unowned
      rw [hfree] at howner
      cases howner
    rw [heq, h.owner?_taken, if_neg hn]
    exact howner
  · rw [heq]
    exact howner

theorem owner?_run (h : w.Sound plugins) {n : Nat} {id : BuilderId} (howner : w.owner? n = some id)
    (offers : List Offer) : (w.run offers).owner? n = some id := by
  induction offers generalizing w with
  | nil => exact howner
  | cons o rest ih => exact ih (h.after o) (h.owner?_after howner o)

theorem mem_iff (h : w.Sound plugins) {id : BuilderId} {n : Nat} :
    (∃ q ∈ (w.builders id).registry.plugins, q.id = .pooled n) ↔ w.owner? n = some id := by
  have hcount : (∃ q ∈ (w.builders id).registry.plugins, q.id = .pooled n) ↔
      0 < w.timesRecorded id n := by
    rw [timesRecorded, List.count_pos_iff, List.mem_map]
    simp only [Array.mem_toList_iff]
  rw [hcount, h.count_eq]
  split
  · next howner => exact iff_of_true Nat.one_pos howner
  · next howner => exact iff_of_false (Nat.lt_irrefl 0) howner

/-- What is recorded is the plugin itself, as it was at the start. -/
theorem recorded_iff (h : w.Sound plugins) {id : BuilderId} {n : Nat} :
    (⟨.pooled n, plugins n⟩ : Registered) ∈ (w.builders id).registry.plugins ↔
      w.owner? n = some id := by
  rw [← h.mem_iff]
  constructor
  · exact fun hq => ⟨_, hq, rfl⟩
  · rintro ⟨⟨_, p⟩, hq, rfl⟩
    obtain rfl : p = plugins n := h.plugin_eq id _ hq n rfl
    exact hq

end Sound

/-- **A plugin has one owner at most**, in whatever order the plugins of a stock are
offered to any number of builders. It has an owner exactly if a builder has recorded
it; that builder is the owner, has recorded it once, and stays the owner, and no other
builder has it. Which offers are accepted depends on the plugin, on its owner and on
the registry of the builder, and an offer that is declined makes no difference to
anything that happens later. -/
theorem owner_unique (settings : BuilderId → Settings) (plugins : Nat → Plugin)
    (offers : List Offer) :
    let w := (start settings plugins).run offers
    (∀ n, (∃ id, w.owner? n = some id) ↔
        ∃ id, ∃ q ∈ (w.builders id).registry.plugins, q.id = .pooled n)
      ∧ (∀ n id, w.owner? n = some id ↔
          (⟨.pooled n, plugins n⟩ : Registered) ∈ (w.builders id).registry.plugins)
      ∧ (∀ n id, w.owner? n = some id → w.timesRecorded id n = 1
          ∧ (∀ other ≠ id, w.timesRecorded other n = 0)
          ∧ ∀ later, (w.run later).owner? n = some id)
      ∧ (∀ id, (w.builders id).id = id)
      ∧ ∀ o, ((∃ done, w.answer o = .ok done) ↔
            (w.builders o.builder).registry.Accepts nativeOperations
              ⟨.pooled o.plugin, plugins o.plugin, w.owner? o.plugin⟩)
          ∧ (∀ done, w.answer o = .ok done →
              w.owner? o.plugin = none ∧ (w.after o).owner? o.plugin = some o.builder)
          ∧ ∀ e, w.answer o = .error e →
              w.after o = w ∧ ∀ later, w.run (o :: later) = w.run later := by
  intro w
  have h : w.Sound plugins := (Sound.start settings plugins).run offers
  refine ⟨fun n => exists_congr fun id => h.mem_iff.symm, fun n id => h.recorded_iff.symm,
    fun n id howner => ⟨?_, fun other hother => ?_, h.owner?_run howner⟩, h.builder_id,
    fun o => ⟨?_, fun done hdone => ?_, fun e he => ?_⟩⟩
  · rw [h.count_eq, if_pos howner]
  · rw [h.count_eq, if_neg]
    rintro heq
    exact hother (Option.some.inj (heq.symm.trans howner))
  · rw [h.answer_eq_ok, Accepts, h.stock_eq]
  · have haccepts : w.Accepts o := (h.answer_eq_ok o).mp ⟨done, hdone⟩
    refine ⟨haccepts.unowned, ?_⟩
    rcases h.after_cases o with ⟨-, heq⟩ | ⟨hdeclined, -⟩
    · rw [heq, h.owner?_taken, if_pos rfl]
    · exact absurd haccepts hdeclined
  · have hsame : w.after o = w := after_of_error he
    exact ⟨hsame, fun later => by rw [run_cons, hsame]⟩

end Workshop

end NginxConfig
