import NginxConfig.Proofs.Builder.Growth
import NginxConfig.Proofs.Builder.Turns
import NginxConfig.Proofs.Registry.Registration

/-!
# What a name stands for

Operations are found by name in three places: among the few that a call answers for
the builder itself, in the list of names that belong to the builder, and in the table
of what the plugins export. Whoever asks a builder whether it has an operation asks
the last two, while a call goes through all three.

They agree on every name. The plugins of a builder export none of its own names,
because no plugin is registered that does, and nothing but a registration changes the
table (`Builder.registry_perform`). So a name belongs to the builder, to one plugin, or
to nobody, and in the last case a call reports that this operation is missing. A script
can pass on such an error, but then it is about the name that was looked for in the end
(`Registry.Raises`). So the report means what it says, unless a script makes one of its
own.
-/

namespace NginxConfig

/-! ## Names of the builder and of plugins -/

/-- The table is what the plugins make it, and has none of the builder's own names. -/
structure Registry.Merged (r : Registry) : Prop where
  consistent : r.Consistent
  not_native : ∀ q ∈ r.plugins, ∀ op ∈ q.operations, op ∉ nativeOperations

namespace Registry.Merged

theorem initial (id : BuilderId) : (Registry.initial id).Merged where
  consistent := consistent_initial id
  not_native := fun q hq op hop => by
    rcases mem_initial.mp hq with rfl | rfl
    · obtain rfl : op = "add_route" := List.mem_singleton.mp hop
      decide
    · obtain rfl : op = "add_server" := List.mem_singleton.mp hop
      decide

variable {r : Registry}

theorem record (h : r.Merged) {p : Instance} (haccepts : r.Accepts nativeOperations p) :
    (r.record p.id p.plugin).Merged where
  consistent := h.consistent.record_accepted haccepts
  not_native := fun q hq op hop => by
    rw [Registry.record, Array.mem_push] at hq
    rcases hq with hq | rfl
    · exact h.not_native q hq op hop
    · exact (haccepts.free op hop).not_native

end Registry.Merged

theorem Sessions.merged_turnAll {s : Sessions} (h : s.builder.registry.Merged)
    (turns : List Turn) : (s.turnAll turns).builder.registry.Merged :=
  registry_induction (fun hnone h => h.record (h.consistent.rejection?_eq_none.mp hnone)) h turns

/-! ## Operations of the builder -/

namespace Builder

/-- The methods of the builder that a call can stand for, with what they answer and the
builder that they leave. -/
inductive Method (b : Builder) : String → Reply → Builder → Prop
  | up : b.Method "up" .unit b.up
  | close : b.Method "end" .unit b.up
  | render : b.Method "render" (.text b.render) b
  | top : b.Method "top" (.node b.roots.http) b
  | http : b.Method "http" (.node b.roots.http) b
  | globals : b.Method "globals" (.node b.roots.globals) b
  | events : b.Method "events" (.node b.roots.events) b
  | current {id : NodeId} (h : b.current = some id) : b.Method "current" (.node id) b
  | nowhere (h : b.current = none) : b.Method "current" .unit b

/-- The names that a call answers. -/
def methodNames : List String :=
  ["up", "end", "render", "top", "http", "globals", "events", "current"]

variable {b : Builder} {operation : String}

theorem Method.mem_methodNames {reply : Reply} {after : Builder}
    (h : b.Method operation reply after) : operation ∈ methodNames := by
  cases h <;> decide

theorem exists_method (h : operation ∈ methodNames) :
    ∃ reply after, b.Method operation reply after := by
  simp only [methodNames, List.mem_cons, List.not_mem_nil, or_false] at h
  rcases h with rfl | rfl | rfl | rfl | rfl | rfl | rfl | rfl
  · exact ⟨_, _, .up⟩
  · exact ⟨_, _, .close⟩
  · exact ⟨_, _, .render⟩
  · exact ⟨_, _, .top⟩
  · exact ⟨_, _, .http⟩
  · exact ⟨_, _, .globals⟩
  · exact ⟨_, _, .events⟩
  · cases hcurrent : b.current with
    | some id => exact ⟨_, _, .current hcurrent⟩
    | none => exact ⟨_, _, .nowhere hcurrent⟩

theorem call_current (b : Builder) (args : Args) :
    b.call "current" args = (.ok ((b.current.map Reply.node).getD .unit), b) := rfl

theorem Method.call_eq {reply : Reply} {after : Builder} (h : b.Method operation reply after)
    (args : Args) : b.call operation args = (.ok reply, after) := by
  cases h with
  | current h => rw [call_current, h, Option.map_some, Option.getD_some]
  | nowhere h => rw [call_current, h, Option.map_none, Option.getD_none]
  | _ => rfl

/-- The other names of the builder are for methods that are not called by name. -/
theorem call_not_method (hnative : operation ∈ nativeOperations) (h : operation ∉ methodNames)
    (args : Args) :
    b.call operation args = (.error (.invalidArguments operation .notDispatched), b) := by
  have hne : ∀ name ∈ methodNames, operation ≠ name := fun name hname heq => h (heq ▸ hname)
  have hcontains : nativeOperations.contains operation = true := List.contains_iff_mem.mpr hnative
  have hanswer : native? b.state operation =
      some ⟨.error (.invalidArguments operation .notDispatched), b.state⟩ := by
    simp only [native?, hne "end" (by decide), hne "up" (by decide), hne "render" (by decide),
      hne "top" (by decide), hne "http" (by decide), hne "globals" (by decide),
      hne "events" (by decide), hne "current" (by decide), hcontains, or_self, if_false, if_true]
  have hrun : dispatch b.registry callDepth b.state operation args =
      ⟨.error (.invalidArguments operation .notDispatched), b.state⟩ := by
    rw [callDepth, dispatch, dispatchWith, hanswer]
  rw [call, hrun]

/-- To go up is all that a method does. -/
theorem Method.after_cases {reply : Reply} {after : Builder} (h : b.Method operation reply after) :
    after = b ∨ (operation = "up" ∨ operation = "end") ∧ after = b.up := by
  cases h with
  | up => exact Or.inr ⟨Or.inl rfl, rfl⟩
  | close => exact Or.inr ⟨Or.inr rfl, rfl⟩
  | _ => exact Or.inl rfl

/-- A name of the builder stands for a method, or a call of it is refused. -/
theorem call_cases (hnative : operation ∈ nativeOperations) (args : Args) :
    (∃ reply after, b.Method operation reply after ∧ b.call operation args = (.ok reply, after))
      ∨ (∀ reply after, ¬ b.Method operation reply after)
        ∧ b.call operation args = (.error (.invalidArguments operation .notDispatched), b) := by
  by_cases hmethod : operation ∈ methodNames
  · obtain ⟨reply, after, hm⟩ := exists_method (b := b) hmethod
    exact Or.inl ⟨reply, after, hm, hm.call_eq args⟩
  · exact Or.inr ⟨fun _ _ hm => hmethod hm.mem_methodNames, call_not_method hnative hmethod args⟩

theorem call_eq_ok_iff_method (hnative : operation ∈ nativeOperations) {args : Args}
    {reply : Reply} {after : Builder} :
    b.call operation args = (.ok reply, after) ↔ b.Method operation reply after := by
  refine ⟨fun hok => ?_, fun hm => hm.call_eq args⟩
  rcases call_cases (b := b) hnative args with ⟨reply', after', hm, hcall⟩ | ⟨-, hcall⟩
  · obtain ⟨hreply, rfl⟩ := Prod.mk.inj (hcall.symm.trans hok)
    exact Except.ok.inj hreply ▸ hm
  · rw [hcall] at hok
    cases hok

theorem snd_call_of_native (hnative : operation ∈ nativeOperations) (args : Args) :
    (b.call operation args).2 = b
      ∨ (operation = "up" ∨ operation = "end") ∧ (b.call operation args).2 = b.up := by
  rcases call_cases (b := b) hnative args with ⟨reply, after, hm, hcall⟩ | ⟨-, hcall⟩
  · rw [hcall]
    exact hm.after_cases
  · rw [hcall]
    exact Or.inl rfl

/-! ## Operations of nobody -/

theorem hasOperation_eq_false (h : b.registry.Merged) :
    b.hasOperation operation = false ↔
      operation ∉ nativeOperations ∧ b.registry.lookup? operation = none := by
  rw [h.consistent.lookup?_eq_none, hasOperation, Bool.or_eq_false_iff]
  refine and_congr ?_ Iff.rfl
  rw [← Bool.not_eq_true, List.contains_iff_mem]

theorem call_of_missing (hnative : operation ∉ nativeOperations)
    (hfound : b.registry.lookup? operation = none) (args : Args) :
    b.call operation args =
      (.error (.noSuchOperation operation b.registry.operationNames), b) := by
  have hrun : dispatch b.registry callDepth b.state operation args =
      ⟨.error (.noSuchOperation operation b.registry.operationNames), b.state⟩ := by
    rw [callDepth, dispatch, dispatchWith, native?_eq_none.mpr hnative, hfound]
  rw [call, hrun]

/-- A call that cannot find an operation tells which one it is, and not that of the call
itself if there is one. -/
theorem noSuchOperation_of_call {inner : String} {args : Args} {available : List String}
    (hown : ¬ b.registry.Throws (.noSuchOperation inner available))
    (h : (b.call operation args).1 = .error (.noSuchOperation inner available)) :
    inner ∉ nativeOperations ∧ b.registry.lookup? inner = none := by
  obtain ⟨st, hstops, -⟩ := call_eq_error_iff.mp (Prod.ext h rfl)
  cases hstops.raises with
  | step h => exact h.elim
  | thrown h => exact absurd h hown
  | noSuchOperation hnative hfound => exact ⟨hnative, hfound⟩

/-! ## Operations of plugins -/

theorem call_of_lookup? {plugin : Registered} {code : Operation}
    (hnative : operation ∉ nativeOperations)
    (hfound : b.registry.lookup? operation = some (plugin, code)) (args : Args) :
    b.call operation args =
      let o := code.run (dispatch b.registry (callDepth - 1)) (plugin.frame operation args) b.state
      (o.result, { b with state := o.state }) := by
  have hdepth : callDepth = callDepth - 1 + 1 := rfl
  rw [call, hdepth, dispatch_of_lookup? hnative hfound]
  rfl

/-! ## Every name -/

/-- **A name stands for the same thing wherever it is looked up**, in every builder that
can be made. Unless a script reports the name as missing of its own accord, a call does so
exactly if the builder says that it does not have the operation; the report lists what the
plugins export, in the order of their registration, and nothing has changed. An operation
that a plugin exports is exported by no other, and a call runs the code of that plugin. A name of the builder
itself is exported by nobody; a call of it answers what the method of that name does, if
there is such a method, and otherwise refuses. -/
theorem names_agree (id : BuilderId) (settings : Settings) (turns : List Turn) :
    let b := ((Sessions.start id settings).turnAll turns).builder
    (∀ operation, (∀ available, ¬ b.registry.Throws (.noSuchOperation operation available)) →
        ∀ args,
          (b.hasOperation operation = false ↔
            ∃ available, (b.call operation args).1 = .error (.noSuchOperation operation available))
          ∧ ∀ available,
            (b.call operation args).1 = .error (.noSuchOperation operation available) →
              available = b.registry.operationNames ∧ (b.call operation args).2 = b)
      ∧ b.registry.operationNames = b.registry.plugins.toList.flatMap Registered.operations
      ∧ (∀ plugin ∈ b.registry.plugins, ∀ operation code,
          plugin.plugin.operations.get? operation = some code →
            (∀ other ∈ b.registry.plugins, operation ∈ other.operations → other = plugin)
            ∧ ∀ args, b.call operation args =
              let o := code.run (dispatch b.registry (callDepth - 1))
                (plugin.frame operation args) b.state
              (o.result, { b with state := o.state }))
      ∧ ∀ operation ∈ nativeOperations,
          (∀ plugin ∈ b.registry.plugins, operation ∉ plugin.operations)
          ∧ ∀ args,
            (∀ reply after, b.call operation args = (.ok reply, after) ↔
              b.Method operation reply after)
            ∧ ((∀ reply after, ¬ b.Method operation reply after) →
              b.call operation args = (.error (.invalidArguments operation .notDispatched), b))
            ∧ (b.call operation args).2.tree = b.tree
            ∧ (operation ≠ "up" → operation ≠ "end" → (b.call operation args).2 = b) := by
  intro b
  have h : b.registry.Merged := Sessions.merged_turnAll (.initial id) turns
  refine ⟨fun operation hown args => ⟨?_, fun available hcall => ?_⟩,
    h.consistent.operationNames_eq, fun plugin hplugin operation code hcode => ?_,
    fun operation hnative => ⟨fun plugin hplugin hop => ?_, fun args => ?_⟩⟩
  · rw [hasOperation_eq_false h]
    constructor
    · rintro ⟨hnative, hfound⟩
      exact ⟨_, congrArg Prod.fst (call_of_missing hnative hfound args)⟩
    · rintro ⟨available, hcall⟩
      exact noSuchOperation_of_call (hown available) hcall
  · obtain ⟨hnative, hfound⟩ := noSuchOperation_of_call (hown available) hcall
    rw [call_of_missing hnative hfound] at hcall ⊢
    cases hcall
    exact ⟨rfl, rfl⟩
  · have hop : operation ∈ plugin.operations := Registry.mem_operations.mpr ⟨code, hcode⟩
    have hfound := h.consistent.lookup?_eq_some.mpr ⟨hplugin, hcode⟩
    exact ⟨fun other hother hop' => h.consistent.exporter_unique hother hop' hplugin hop,
      call_of_lookup? (h.not_native plugin hplugin operation hop) hfound⟩
  · exact h.not_native plugin hplugin operation hop hnative
  · refine ⟨fun reply after => call_eq_ok_iff_method hnative, fun hnone => ?_, ?_,
      fun hup hclose => ?_⟩
    · rcases call_cases (b := b) hnative args with ⟨reply, after, hm, -⟩ | ⟨-, hcall⟩
      · exact absurd hm (hnone reply after)
      · exact hcall
    · rcases snd_call_of_native (b := b) hnative args with heq | ⟨-, heq⟩
      · rw [heq]
      · rw [heq]
        rfl
    · rcases snd_call_of_native (b := b) hnative args with heq | ⟨rfl | rfl, -⟩
      · exact heq
      · exact absurd rfl hup
      · exact absurd rfl hclose

end Builder

/-! ## A report that is passed on -/

theorem Registry.RunsScript.mem_entries {r : Registry} {operation : String} {plugin : Registered}
    {steps : List Step} (h : r.RunsScript operation plugin steps) :
    ∃ index, (operation, index, .script steps) ∈ r.methods.entries := by
  obtain ⟨⟨index, code⟩, hget, hplugin⟩ := Option.bind_eq_some_iff.mp h.exported
  obtain ⟨registered, -, heq⟩ := Option.map_eq_some_iff.mp hplugin
  obtain ⟨-, rfl⟩ := Prod.mk.inj heq
  obtain ⟨before, after, hentries, -⟩ := List.lookup_eq_some_iff.mp hget
  exact ⟨index, hentries ▸ List.mem_append_right before List.mem_cons_self⟩

namespace Builder

/-- One script calls an operation that there is not, after it has tried to report this
itself. The other raises an error of another kind. -/
def relayPlugin : Plugin :=
  ⟨"relay",
    .ofList
      [("relay", .script [.attempt (.raise (.noSuchOperation "gone" []) rfl), .call "gone" .own]),
        ("decline", .script [.raise (.notAScope "decline") rfl])],
    []⟩

def relayTurns : List Turn :=
  [.deed (.register ⟨.pooled 0, relayPlugin, none⟩), .enter "decline" .none,
    .enter "add_server" .none]

theorem names_agree_relay :
    let b := ((Sessions.start 0 {}).turnAll relayTurns).builder
    (∀ available, ¬ b.registry.Throws (.noSuchOperation "gone" available))
      ∧ b.hasOperation "gone" = false
      ∧ (b.call "relay" .none).1 = .error (.noSuchOperation "gone" b.registry.operationNames)
      ∧ ∀ available, (b.call "gone" .none).1 = .error (.noSuchOperation "gone" available) →
          available = ["add_route", "add_server", "relay", "decline"]
            ∧ (b.call "gone" .none).2 = b := by
  intro b
  have hown : ∀ available, ¬ b.registry.Throws (.noSuchOperation "gone" available) := by
    rintro available ⟨operation, plugin, steps, catchable, hscript, hraise⟩
    obtain ⟨index, hmem⟩ := hscript.mem_entries
    have hentries : b.registry.methods.entries =
        [("add_route", 0, .addRoute), ("add_server", 1, .addServer),
          ("relay", 2,
            .script [.attempt (.raise (.noSuchOperation "gone" []) rfl), .call "gone" .own]),
          ("decline", 2, .script [.raise (.notAScope "decline") rfl])] := rfl
    rw [hentries] at hmem
    simp only [List.mem_cons, Prod.mk.injEq, List.not_mem_nil, or_false, reduceCtorEq, and_false,
      false_or, Operation.script.injEq] at hmem
    rcases hmem with ⟨-, -, rfl⟩ | ⟨-, -, rfl⟩
    · simp at hraise
    · cases List.mem_singleton.mp hraise
  obtain ⟨hmissing, -⟩ := names_agree 0 {} relayTurns
  obtain ⟨hhas, hreport⟩ := hmissing "gone" hown .none
  exact ⟨hown, hhas.mpr ⟨_, rfl⟩, rfl, hreport⟩

end Builder

end NginxConfig
