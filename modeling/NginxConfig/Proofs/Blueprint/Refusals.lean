import NginxConfig.Proofs.Blueprint.Compile

/-!
# Why a blueprint is refused

The compiler stops at the first thing that it cannot add. Which one that is, and
what is wrong with it, can be read off the blueprint in the order of its text
(`Blueprint.refusal?`), and the error says so. Nothing that has been built before
has a part in it, so the settings have none either (`Blueprint.compile_eq_error`).
-/

namespace NginxConfig

/-! ## Routes -/

namespace Route

mutual

/-- The error of the first route without its path in one place. -/
def refusal? : Route → Option Error
  | mk path options routes =>
    if path ≠ "" ∧ "path" ∉ options.keys then refusalOfAll? routes
    else some (.invalidArguments "add_route" (fault options))

def refusalOfAll? : List Route → Option Error
  | [] => none
  | r :: rest => r.refusal? <|> refusalOfAll? rest

end

mutual

theorem build_eq_error {b : Builder} {scope : NodeId} {keyword : String} {e : Error}
    (h : b.In scope keyword) (hk : keyword = "location" ∨ keyword = "server") :
    ∀ {r : Route}, r.build b = .error e ↔ r.refusal? = some e
  | mk path options routes => by
      rw [Route.build, refusal?]
      by_cases hgood : path ≠ "" ∧ "path" ∉ options.keys
      · have hin := h.opened (keyword?_location path options [])
        rw [enter_eq h hk hgood.1 hgood.2, if_pos hgood, ← buildAll_eq_error hin (Or.inl rfl)]
        exact bind_pure_eq_error
      · rw [enter_error h hgood, if_neg hgood]
        simp only [throw_eq_error, Except.error.injEq, Option.some.injEq]

theorem buildAll_eq_error {b : Builder} {scope : NodeId} {keyword : String} {e : Error}
    (h : b.In scope keyword) (hk : keyword = "location" ∨ keyword = "server") :
    ∀ {rs : List Route}, buildAll b rs = .error e ↔ refusalOfAll? rs = some e
  | [] => by simp [buildAll, refusalOfAll?]
  | r :: rest => by
      rw [buildAll, refusalOfAll?]
      refine bind_eq_error_iff_orElse (fun e => build_eq_error h hk) fun after hafter => ?_
      obtain ⟨-, rfl⟩ := (build_eq_ok h hk).mp hafter
      exact buildAll_eq_error (h.withTree (Tree.Keeps.append b.tree scope r.block)) hk

end

end Route

/-! ## Servers and blueprints -/

namespace Server

instance (s : Server) : Decidable s.NamedOnce :=
  inferInstanceAs (Decidable (_ ≤ 1))

/-- The error about the name of a server, or else about its routes. -/
def refusal? (s : Server) : Option Error :=
  if s.NamedOnce then Route.refusalOfAll? s.routes
  else some (.invalidArguments "add_server" (.repeated Context.hostnameKeys))

theorem build_eq_error {b : Builder} {scope : NodeId} (h : b.In scope "http") {s : Server}
    {e : Error} : s.build b = .error e ↔ s.refusal? = some e := by
  rw [build, refusal?]
  by_cases honce : s.NamedOnce
  · have hin := h.opened (keyword?_server s.blockOptions)
    rw [enter_eq h honce, if_pos honce, ← Route.buildAll_eq_error hin (Or.inr rfl)]
    exact bind_pure_eq_error
  · have htwice : 1 < (s.args.given 0 Context.hostnameKeys).length :=
      Nat.lt_of_not_le fun hle => honce (s.namedOnce_iff.mpr hle)
    rw [Builder.enter_add_server_error h htwice, if_neg honce]
    simp only [throw_eq_error, Except.error.injEq, Option.some.injEq]

theorem foldlM_build_eq_error {scope : NodeId} {e : Error} :
    ∀ {servers : List Server} {b : Builder}, b.In scope "http" →
      (servers.foldlM build b = .error e ↔ servers.findSome? refusal? = some e)
  | [], b, _ => by simp
  | s :: rest, b, h => by
      have hfirst : (s :: rest).findSome? refusal? = (s.refusal? <|> rest.findSome? refusal?) := by
        rw [List.findSome?_cons]
        cases s.refusal? <;> rfl
      rw [List.foldlM_cons, hfirst]
      refine bind_eq_error_iff_orElse (fun e => build_eq_error h) fun after hafter => ?_
      obtain ⟨-, -, rfl⟩ := (build_eq_ok h).mp hafter
      exact foldlM_build_eq_error (h.withTree (Tree.Keeps.append b.tree scope s.block))

end Server

namespace Blueprint

/-- The error of the first server or route that cannot be added. -/
def refusal? (bp : Blueprint) : Option Error :=
  bp.servers.findSome? Server.refusal?

/-- **A blueprint is refused for what it says of its servers.** It does not compile if and only
if a server is named twice or a route lacks its path or has it in two places, and the error is
about the first of them. -/
theorem compile_eq_error {bp : Blueprint} {id : BuilderId} {e : Error} :
    bp.compile id = .error e ↔ bp.refusal? = some e := by
  rw [compile_eq_foldlM]
  exact Server.foldlM_build_eq_error (bp.in_skeleton id)

end Blueprint

end NginxConfig
