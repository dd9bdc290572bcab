import NginxConfig.Proofs.Builder.Sessions
import NginxConfig.Proofs.Registry.Registration

/-!
# One turn after the other

In a program it is laid down when each guard is released. Who works with a builder
by hand decides from turn to turn, and can lose a guard for good, which leaves the
cursor where it is. Every builder that can be made is reached in this way
(`turnAll` from a `start`), so what holds of all builders is proved by induction on
the turns.
-/

namespace NginxConfig

/-- What can be done next, while some guards are open. -/
inductive Turn where
  | deed (d : Deed)
  /-- Opens a guard, if the operation opens a scope. -/
  | enter (operation : String) (args : Args)
  /-- Finishes or drops the latest guard. -/
  | release (finished : Bool)
  /-- Loses the latest guard, which is never released. -/
  | forget

namespace Builder

theorem orSame_cases (b : Builder) (result : Except Error Builder) :
    (b.orSame result).1 = b ∨ ∃ after, result = .ok after ∧ (b.orSame result).1 = after := by
  cases result with
  | ok after => exact Or.inr ⟨after, rfl, rfl⟩
  | error e => exact Or.inl rfl

/-- All that can become of a builder. An option that is set is one of the edits. -/
theorem perform_cases (b : Builder) (d : Deed) :
    (b.perform d).1 = b
      ∨ (∃ operation args, d = .call operation args ∧ (b.perform d).1 = (b.call operation args).2)
      ∨ (b.perform d).1 = b.up
      ∨ (∃ id, b.tree.HasContainer id
          ∧ (b.perform d).1 = { b with state := b.state.descend id })
      ∨ (∃ e, (b.perform d).1 = b.withTree (b.tree.edit e))
      ∨ ∃ p : Instance, b.registry.rejection? p nativeOperations = none
          ∧ (b.perform d).1 = { b with registry := b.registry.record p.id p.plugin } := by
  cases d with
  | call operation args => exact Or.inr (Or.inl ⟨operation, args, rfl, rfl⟩)
  | up => exact Or.inr (Or.inr (Or.inl rfl))
  | descend id =>
      rcases b.orSame_cases (b.descend id) with hsame | ⟨after, hok, heq⟩
      · exact Or.inl hsame
      · obtain ⟨c, hc, hafter⟩ := bind_eq_ok.mp hok
        obtain rfl := Except.ok.inj hafter
        exact Or.inr (Or.inr (Or.inr (Or.inl ⟨id, ⟨c, Tree.container_eq_ok.mp hc⟩, heq⟩)))
  | setOption id key value =>
      rcases b.orSame_cases (b.setOption id key value) with hsame | ⟨after, hok, heq⟩
      · exact Or.inl hsame
      · obtain ⟨t, ht, hafter⟩ := bind_eq_ok.mp hok
        obtain rfl := Except.ok.inj hafter
        have hedit : b.tree.edit (.setOption id key value) = t := by
          rw [Tree.edit, Edit.apply, ht]
        exact Or.inr (Or.inr (Or.inr (Or.inr (Or.inl ⟨_, hedit ▸ heq⟩))))
  | register p =>
      rcases b.orSame_cases ((b.register p).map Prod.fst) with hsame | ⟨after, hok, heq⟩
      · exact Or.inl hsame
      · obtain ⟨⟨after', owned⟩, hregister, rfl⟩ := map_eq_ok.mp hok
        obtain ⟨hnone, rfl, -⟩ := register_eq_ok.mp hregister
        exact Or.inr (Or.inr (Or.inr (Or.inr (Or.inr ⟨p, hnone, heq⟩))))
  | edit e =>
      rcases b.orSame_cases ((e.apply b.tree).map b.withTree) with hsame | ⟨after, hok, heq⟩
      · exact Or.inl hsame
      · obtain ⟨t, ht, rfl⟩ := map_eq_ok.mp hok
        have hedit : b.tree.edit e = t := by rw [Tree.edit, ht]
        exact Or.inr (Or.inr (Or.inr (Or.inr (Or.inl ⟨e, hedit ▸ heq⟩))))

/-- Only a registration changes the registry, and only if it is accepted. -/
theorem registry_perform (b : Builder) (d : Deed) :
    (b.perform d).1.registry = b.registry
      ∨ ∃ p : Instance, b.registry.rejection? p nativeOperations = none
          ∧ (b.perform d).1.registry = b.registry.record p.id p.plugin := by
  rcases b.perform_cases d with heq | ⟨operation, args, -, heq⟩ | heq | ⟨id, -, heq⟩ | ⟨e, heq⟩ |
    ⟨p, hnone, heq⟩
  · exact Or.inl (by rw [heq])
  · exact Or.inl (by rw [heq]; rfl)
  · exact Or.inl (by rw [heq]; rfl)
  · exact Or.inl (by rw [heq])
  · exact Or.inl (by rw [heq]; rfl)
  · exact Or.inr ⟨p, hnone, by rw [heq]⟩

end Builder

namespace Sessions

/-- A new builder, with no guard open. -/
def start (id : BuilderId) (settings : Settings) : Sessions :=
  ⟨.new id settings, []⟩

def turn (s : Sessions) : Turn → Sessions
  | .deed d => ⟨(s.builder.perform d).1, s.guards⟩
  | .enter operation args =>
    match s.builder.enter operation args with
    | (.ok scope, b) => s.opened b scope
    | (.error _, b) => ⟨b, s.guards⟩
  | .release finished => s.release finished
  | .forget => ⟨s.builder, s.guards.tail⟩

def turnAll (s : Sessions) (turns : List Turn) : Sessions :=
  turns.foldl turn s

/-- To release a guard is to close its scope, unless that has been done. -/
theorem release_cases (s : Sessions) (finished : Bool) :
    s.release finished = s
      ∨ ∃ g rest, s.guards = g :: rest
        ∧ (s.release finished = ⟨s.builder, rest⟩
          ∨ s.release finished = ⟨s.builder.leave g.scope, rest⟩) := by
  rw [release]
  cases s.guards with
  | nil => exact Or.inl rfl
  | cons g rest =>
      refine Or.inr ⟨g, rest, rfl, ?_⟩
      cases finished with
      | true => exact Or.inr rfl
      | false =>
          simp only [Bool.false_eq_true, if_false, Guard.drop]
          split
          · exact Or.inr rfl
          · exact Or.inl rfl

/-- A guard has nothing to do with the registry. -/
theorem registry_turn (s : Sessions) (t : Turn) :
    (s.turn t).builder.registry = s.builder.registry
      ∨ ∃ p : Instance, s.builder.registry.rejection? p nativeOperations = none
          ∧ (s.turn t).builder.registry = s.builder.registry.record p.id p.plugin := by
  cases t with
  | deed d => exact s.builder.registry_perform d
  | enter operation args =>
      obtain ⟨cursor, henter⟩ := s.builder.enter_snd operation args
      have hafter : (s.builder.enter operation args).2.registry = s.builder.registry := by
        rw [henter]
        rfl
      refine Or.inl ?_
      rw [turn]
      cases hresult : s.builder.enter operation args with
      | mk result b =>
          rw [hresult] at hafter
          cases result <;> exact hafter
  | release finished =>
      rw [turn]
      rcases s.release_cases finished with hsame | ⟨g, rest, -, hlost | hleft⟩
      · exact Or.inl (congrArg (·.builder.registry) hsame)
      · exact Or.inl (congrArg (·.builder.registry) hlost)
      · exact Or.inl (congrArg (·.builder.registry) hleft)
  | forget => exact Or.inl rfl

/-- What survives the registrations that are accepted survives all turns. -/
theorem registry_induction {P : Registry → Prop}
    (record : ∀ {r : Registry} {p : Instance}, r.rejection? p nativeOperations = none → P r →
      P (r.record p.id p.plugin))
    {s : Sessions} (start : P s.builder.registry) (turns : List Turn) :
    P (s.turnAll turns).builder.registry := by
  induction turns generalizing s with
  | nil => exact start
  | cons t rest ih =>
      refine ih ?_
      rcases s.registry_turn t with hsame | ⟨p, hnone, hrecord⟩
      · exact hsame ▸ start
      · exact hrecord ▸ record hnone start

end Sessions

end NginxConfig
