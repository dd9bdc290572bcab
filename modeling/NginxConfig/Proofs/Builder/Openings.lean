import NginxConfig.Proofs.Builder.Nesting

/-!
# What the two first operations do

A call that opens a server or a route first looks at its arguments and then at the
cursor. The arguments alone decide whether it goes on and which block it wants
(`Opening.wanted`), and the cursor alone decides what becomes of a block that is wanted
(`Opening.opens`). So the error is that of the first check that fails, and nothing has
happened before the last one has passed. What then happens is one more node, at the end
of the scope at the cursor.
-/

namespace NginxConfig

/-! ## Arguments -/

namespace Args

/-- The number of places in which one argument is given. -/
def places (a : Args) (index : Nat) (keys : List String) : Nat :=
  (a.get? index).isSome.toNat + keys.countP a.options.contains

variable (a : Args) (index : Nat) (keys : List String)

theorem length_given : (a.given index keys).length = a.places index keys := by
  rw [given, List.length_append, List.length_filterMap_eq_countP, places]
  cases a.get? index <;> rfl

theorem head?_given : (a.given index keys).head? = a.lookup? index keys := by
  rw [given, List.head?_append, List.head?_filterMap, lookup?]
  cases a.get? index <;> rfl

theorem first?_eq : a.first? keys = (a.lookup? 0 keys).filter (!·.isEmpty) := by
  rw [first?, head?_given]

end Args

namespace Context

variable {args : Args}

theorem serverSection_of_lt (h : 1 < args.places 0 hostnameKeys) :
    serverSection args = .error (.invalidArguments "add_server" (.repeated hostnameKeys)) := by
  rw [← Args.length_given] at h
  rw [serverSection, argumentOr, Args.single_of_lt h]
  rfl

theorem serverSection_of_le (h : args.places 0 hostnameKeys ≤ 1) :
    serverSection args = .ok (.container (some "server") (Builder.serverOptions args) []) := by
  rw [← Args.length_given] at h
  rw [serverSection, argumentOr, Args.single_of_le h]
  simp only [ok_bind, pure_eq_ok, Table.insertAll_eq_overlay]
  rfl

theorem routeSection_of_lt (h : 1 < args.places 0 pathKeys) :
    routeSection args = .error (.invalidArguments "add_route" (.repeated pathKeys)) := by
  rw [← Args.length_given] at h
  rw [routeSection, Args.single_of_lt h]
  rfl

theorem routeSection_of_none (h : args.places 0 pathKeys ≤ 1)
    (hpath : args.first? pathKeys = none) :
    routeSection args = .error (.invalidArguments "add_route" .missingPath) := by
  rw [← Args.length_given] at h
  rw [Args.first?] at hpath
  rw [routeSection, Args.single_of_le h, ok_bind, hpath]
  rfl

theorem routeSection_of_some (h : args.places 0 pathKeys ≤ 1) {path : Value}
    (hpath : args.first? pathKeys = some path) :
    routeSection args = .ok
      (.container (some (locationHeader path.text)) (args.optionsExcept pathKeys) []) := by
  rw [← Args.length_given] at h
  rw [Args.first?] at hpath
  rw [routeSection, Args.single_of_le h, ok_bind, hpath]
  rfl

end Context

/-- The options of a server: its name, and then what is named otherwise, in order. -/
theorem Builder.entries_serverOptions (args : Args) :
    (serverOptions args).entries =
      ("server_name", (args.named? "server_name").getD
        ((args.first? Context.hostnameKeys).getD Context.anyHost)) ::
        args.options.entries.filter fun p => p.1 ∉ ["hostname", "name", "server_name"] := by
  have hname : (args.optionsExcept Context.hostnameKeys).get? "server_name" =
      args.named? "server_name" :=
    args.options.get?_without (by decide)
  have hrest : ((args.optionsExcept Context.hostnameKeys).entries.filter
      fun p => p.1 ∉ (["server_name"] : List String)) =
        args.options.entries.filter fun p => p.1 ∉ ["hostname", "name", "server_name"] := by
    rw [Args.optionsExcept, Table.without, List.filter_filter]
    refine List.filter_congr fun p _ => ?_
    rw [Bool.and_comm]
    simp [Context.hostnameKeys, Bool.and_assoc]
  have hone : ∀ host : Value, (Table.ofList [("server_name", host)]).entries =
      [("server_name", host)] := fun _ => rfl
  rw [serverOptions, Table.overlay]
  simp only [hone, List.map_cons, List.map_nil, hname]
  exact congrArg (List.cons _) hrest

/-- An option that is named like the first one takes its place, and keeps it. -/
example :
    (Builder.serverOptions
      ⟨[.str "a"], .ofList [("listen", .str "80"), ("server_name", .str "b")]⟩).entries.map
        (fun p => (p.1, p.2.text)) = [("server_name", "b"), ("listen", "80")] := by
  decide

/-! ## One more container -/

namespace Tree

/-- A container without sections comes into the next slot, as the last section of a
scope, and nothing else is changed. -/
structure Gains (t t' : Tree) (scope : NodeId) (header : String)
    (entries : List (String × Value)) : Prop where
  size_eq : t'.size = t.size + 1
  node_new : ∃ options : Options, options.entries = entries
    ∧ t'.node? t.size = some ⟨some scope, .container ⟨some header, options, []⟩⟩
  node_scope : ∃ c, t.container? scope = some c
    ∧ t'.node? scope =
      some ⟨t.parent? scope, .container { c with sections := c.sections ++ [t.size] }⟩
  node_other : ∀ x < t.size, x ≠ scope → t'.node? x = t.node? x

theorem gains_append {t : Tree} {scope : NodeId} (h : t.HasContainer scope) (header : String)
    (options : Options) :
    t.Gains (t.append scope (.container (some header) options [])).1 scope header
      options.entries := by
  obtain ⟨c, hc⟩ := h
  have hscope : scope < t.size := HasContainer.lt_size ⟨c, hc⟩
  have hsize : (t.appendSection scope t.size).size = t.size := size_modifyContainer _ _ _
  have hold : ∀ x < t.size, (t.append scope (.container (some header) options [])).1.node? x =
      (t.appendSection scope t.size).node? x := fun x hx => by
    rw [append_empty hscope, node?_extend_of_lt (hsize.symm ▸ hx)]
  refine ⟨?_, ⟨options, rfl, ?_⟩, ⟨c, hc, ?_⟩, fun x hx hne => ?_⟩
  · rw [append_empty hscope, size_extend, hsize, List.length_singleton]
  · rw [append_empty hscope, node?_extend, hsize, if_neg (Nat.lt_irrefl _), Nat.sub_self]
    rfl
  · rw [hold scope hscope, appendSection, modifyContainer, node?_modifyNode, if_pos rfl,
      node?_of_container hc]
    rfl
  · rw [hold x hx, appendSection, modifyContainer, node?_modifyNode, if_neg hne]

end Tree

/-! ## The cursor -/

/-- A call wants to open a block. It depends on the cursor alone whether it does. -/
structure Builder.Opens (b : Builder) (operation : String) (args : Args) (plugin : String)
    (allowed : List String) (header : String) (entries : List (String × Value)) : Prop where
  allows_or_bars : (∃ scope, b.state.Allows allowed scope) ∨ ∃ e, b.state.Bars plugin allowed e
  of_bars : ∀ e, b.state.Bars plugin allowed e → b.call operation args = (.error e, b)
  of_allows : ∀ scope, b.state.Allows allowed scope →
    ∃ t, b.tree.Gains t scope header entries
      ∧ b.call operation args =
        (.ok (.scope b.tree.size),
          { b with state := { b.state with tree := t, cursor := .on b.tree.size } })

theorem Opening.opens {o : Opening} {b : Builder} {id : InstanceId} {args : Args} {header : String}
    {options : Options} (hfound : b.registry.lookup? o.operation = some (⟨id, o.plugin⟩, o.code))
    (hwanted : o.wanted args = .ok (.container (some header) options [])) :
    b.Opens o.operation args o.plugin.name o.plugin.validParents header options.entries where
  allows_or_bars := b.state.allows_or_bars _ _
  of_bars := fun _ hbars => call_of_bars hfound hwanted hbars
  of_allows := fun _ hallows =>
    ⟨_, Tree.gains_append hallows.hasContainer header options,
      call_of_allows hfound hwanted hallows⟩

/-! ## Every builder -/

/-- **What a call of `add_server` or `add_route` does**, for every builder that can be
made, in any state. A call that is given its argument in two places is refused, and so is
that of a route without a path, wherever the cursor is. Otherwise the call fails if the
cursor is nowhere, at no container, or at one with another keyword. In all these cases
nothing has changed. If the cursor is at a scope that is allowed, a block without
sections is the one thing that is new, as the last section there, and the cursor is in
it. A server has its name first, which is what the option of that name says or else the
argument, and has no option that stands for the argument; a route has the options that
are not the path. -/
theorem openings_are_exact (id : BuilderId) (settings : Settings) (turns : List Turn)
    (st : BuildState) (args : Args) :
    let b := { ((Sessions.start id settings).turnAll turns).builder with state := st }
    (if args.places 0 ["hostname", "name"] ≤ 1 then
        let host := ((args.lookup? 0 ["hostname", "name"]).filter (!·.isEmpty)).getD (.str "_")
        b.Opens "add_server" args "server" ["http"] "server"
          (("server_name", (args.named? "server_name").getD host) ::
            args.options.entries.filter fun p => p.1 ∉ ["hostname", "name", "server_name"])
      else b.call "add_server" args =
        (.error (.invalidArguments "add_server" (.repeated ["hostname", "name"])), b))
      ∧ if args.places 0 ["path"] ≤ 1 then
          match (args.lookup? 0 ["path"]).filter (!·.isEmpty) with
          | some path =>
            b.Opens "add_route" args "route" ["location", "server"] ("location " ++ path.text)
              (args.options.entries.filter fun p => p.1 ∉ ["path"])
          | none =>
            b.call "add_route" args = (.error (.invalidArguments "add_route" .missingPath), b)
        else b.call "add_route" args =
          (.error (.invalidArguments "add_route" (.repeated ["path"])), b) := by
  intro b
  have hfound : ∀ o : Opening, b.registry.lookup? o.operation =
      some (⟨.ofBuilder id, o.plugin⟩, o.code) := Sessions.lookup?_opening id settings turns
  constructor
  · split
    · next h =>
        have hopens := Opening.opens (hfound .server) (Context.serverSection_of_le h)
        rw [Builder.entries_serverOptions, Args.first?_eq] at hopens
        exact hopens
    · next h =>
        exact Opening.call_of_error (hfound .server)
          (Context.serverSection_of_lt (Nat.lt_of_not_le h))
  · split
    · next h =>
        rw [← Args.first?_eq]
        cases hpath : args.first? ["path"] with
        | some path =>
            have hopens := Opening.opens (hfound .route) (Context.routeSection_of_some h hpath)
            have hrest : (args.optionsExcept Context.pathKeys).entries =
                args.options.entries.filter fun p => p.1 ∉ ["path"] :=
              List.filter_congr fun p _ => by simp [Context.pathKeys]
            rw [hrest] at hopens
            exact hopens
        | none =>
            exact Opening.call_of_error (hfound .route) (Context.routeSection_of_none h hpath)
    · next h =>
        exact Opening.call_of_error (hfound .route)
          (Context.routeSection_of_lt (Nat.lt_of_not_le h))

end NginxConfig
