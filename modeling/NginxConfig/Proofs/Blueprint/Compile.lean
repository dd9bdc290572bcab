import NginxConfig.Blueprint
import NginxConfig.Proofs.Builder.Scopes
import NginxConfig.Proofs.Tree.ReadBack

/-!
# What a blueprint compiles to

A blueprint says what its configuration looks like, and the compiler gets there
by opening and leaving scopes. Here the first is written down as a section
(`Blueprint.document`), and the second is shown to attach it piece by piece: a
route attaches its block and leaves the cursor where it was
(`Route.build_eq_ok`), and so does a server (`Server.build_eq_ok`).
-/

namespace NginxConfig

/-! ## What is described -/

namespace Route

mutual

/-- Every route has a path, and has it in one place. -/
def WellFormed : Route → Prop
  | mk path options routes => path ≠ "" ∧ "path" ∉ options.keys ∧ WellFormedAll routes

def WellFormedAll : List Route → Prop
  | [] => True
  | r :: rest => r.WellFormed ∧ WellFormedAll rest

end

mutual

/-- The block of a route, with those of its routes inside. -/
def block : Route → Section
  | mk path options routes => .container (some ("location " ++ path)) options (blocks routes)

def blocks : List Route → List Section
  | [] => []
  | r :: rest => r.block :: blocks rest

end

end Route

namespace Server

/-- The host name is given in one place at most. -/
def NamedOnce (s : Server) : Prop :=
  s.hostname.isSome.toNat + (s.options.contains "hostname").toNat +
    (s.options.contains "name").toNat ≤ 1

/-- The host name, wherever it is given; a server without one answers to any. -/
def host (s : Server) : Value :=
  match s.hostname.map Value.str <|> s.options.get? "hostname" <|> s.options.get? "name" with
  | some value => if value.isEmpty then .str "_" else value
  | none => .str "_"

/-- The host name comes first, and what gives it is left out. -/
def blockOptions (s : Server) : Options :=
  (Table.ofList [("server_name", s.host)]).overlay (s.options.without ["hostname", "name"])

def block (s : Server) : Section :=
  .container (some "server") s.blockOptions (Route.blocks s.routes)

end Server

namespace Blueprint

/-- No server is named twice, and the routes of all servers have their paths. -/
def Valid (bp : Blueprint) : Prop :=
  ∀ s ∈ bp.servers, s.NamedOnce ∧ Route.WellFormedAll s.routes

/-- The whole configuration. -/
def document (bp : Blueprint) : Section :=
  .container none ∅
    [.container none
      ((Table.ofList [("worker_processes", bp.settings.workerProcesses.value),
        ("error_log", .str bp.settings.errorLog),
        ("daemon", .bool bp.settings.daemon)]).overlay bp.globals) [],
    .container (some "events")
      (Table.ofList [("worker_connections",
        .int (Int64.ofNat bp.settings.workerConnections.toNat))]) [],
    .container (some "http")
      ((Table.ofList [("include", .str "../conf/mime.types")]).overlay bp.http)
      (bp.servers.map Server.block)]

end Blueprint

/-! ## Routes -/

namespace Route

theorem given_path (path : String) (options : Options) :
    (⟨[.str path], options⟩ : Args).given 0 Context.pathKeys =
      .str path :: (options.get? "path").toList := by
  rw [Args.given, Context.pathKeys, List.filterMap_cons, Args.named?]
  cases options.get? "path" <;> rfl

theorem enter_eq {b : Builder} {scope : NodeId} {keyword : String} (h : b.In scope keyword)
    (hk : keyword = "location" ∨ keyword = "server") {path : String} {options : Options}
    (hpath : path ≠ "") (hkey : "path" ∉ options.keys) :
    b.enter "add_route" ((Args.none.arg (.str path)).withOptions options) =
      (.ok ⟨b.tree.size, .on scope⟩,
        b.opened scope (.container (some (locationHeader path)) options [])) := by
  have hargs : (Args.none.arg (.str path)).withOptions options = ⟨[.str path], options⟩ :=
    Args.withOptions_eq [.str path] options
  have hgiven : (⟨[.str path], options⟩ : Args).given 0 Context.pathKeys = [.str path] := by
    rw [given_path, Table.get?_eq_none.mpr hkey]
    rfl
  have hnonempty : (Value.str path).isEmpty = false := by
    rw [Value.isEmpty, String.isEmpty_eq_false_iff]
    exact hpath
  have hfirst : (⟨[.str path], options⟩ : Args).first? Context.pathKeys = some (.str path) := by
    rw [Args.first?, hgiven, List.head?_cons, Option.filter_some, hnonempty]
    rfl
  have hrest : (⟨[.str path], options⟩ : Args).optionsExcept Context.pathKeys = options :=
    Table.without_eq_self fun key hm => List.mem_singleton.mp hm ▸ hkey
  rw [hargs, Builder.enter_add_route h hk (by rw [hgiven]; exact Nat.le_refl 1) hfirst, hrest,
    Value.text]

/-- What is wrong with a route that does not have its path in one place. -/
def fault (options : Options) : ArgumentFault :=
  if "path" ∈ options.keys then .repeated Context.pathKeys else .missingPath

theorem enter_error {b : Builder} {scope : NodeId} {keyword : String} (h : b.In scope keyword)
    {path : String} {options : Options} (hbad : ¬ (path ≠ "" ∧ "path" ∉ options.keys)) :
    b.enter "add_route" ((Args.none.arg (.str path)).withOptions options) =
      (.error (.invalidArguments "add_route" (fault options)), b) := by
  have hargs : (Args.none.arg (.str path)).withOptions options = ⟨[.str path], options⟩ :=
    Args.withOptions_eq [.str path] options
  rw [hargs]
  by_cases hkey : "path" ∈ options.keys
  · obtain ⟨value, hvalue⟩ := Option.isSome_iff_exists.mp (Table.contains_eq_true.mpr hkey)
    rw [fault, if_pos hkey]
    exact Builder.enter_add_route_repeated h (by rw [given_path, hvalue]; exact Nat.lt_succ_self 1)
  · have hpath : path = "" := Classical.not_not.mp fun hpath => hbad ⟨hpath, hkey⟩
    subst hpath
    have hgiven : (⟨[.str ""], options⟩ : Args).given 0 Context.pathKeys = [.str ""] := by
      rw [given_path, Table.get?_eq_none.mpr hkey]
      rfl
    rw [fault, if_neg hkey]
    exact Builder.enter_add_route_missing h (by rw [hgiven]; exact Nat.le_refl 1)
      (by rw [Args.first?, hgiven]; rfl)

mutual

/-- A route attaches its block, and the cursor is where it was. -/
theorem build_eq_ok {b b' : Builder} {scope : NodeId} {keyword : String}
    (h : b.In scope keyword) (hk : keyword = "location" ∨ keyword = "server") :
    ∀ {r : Route}, r.build b = .ok b' ↔
      r.WellFormed ∧ b' = b.withTree (b.tree.append scope r.block).1
  | mk path options routes => by
      rw [Route.build, WellFormed]
      by_cases hgood : path ≠ "" ∧ "path" ∉ options.keys
      · obtain ⟨hpath, hkey⟩ := hgood
        have hin := h.opened (keyword?_location path options [])
        have hleave := h.leave_opened (some (locationHeader path)) options (blocks routes)
        rw [enter_eq h hk hpath hkey]
        simp only [bind_eq_ok, pure_eq_ok, Except.ok.injEq, buildAll_eq_ok hin (Or.inl rfl)]
        constructor
        · rintro ⟨after, ⟨hroutes, rfl⟩, rfl⟩
          exact ⟨⟨hpath, hkey, hroutes⟩, hleave⟩
        · rintro ⟨⟨-, -, hroutes⟩, rfl⟩
          exact ⟨_, ⟨hroutes, rfl⟩, hleave⟩
      · rw [enter_error h hgood]
        constructor
        · intro hok
          cases hok
        · rintro ⟨⟨hpath, hkey, -⟩, -⟩
          exact absurd ⟨hpath, hkey⟩ hgood

theorem buildAll_eq_ok {b b' : Builder} {scope : NodeId} {keyword : String}
    (h : b.In scope keyword) (hk : keyword = "location" ∨ keyword = "server") :
    ∀ {rs : List Route}, buildAll b rs = .ok b' ↔
      WellFormedAll rs ∧ b' = b.withTree (b.tree.appendAll scope (blocks rs))
  | [] => by
      rw [buildAll, WellFormedAll, true_and, Except.ok.injEq]
      exact eq_comm
  | r :: rest => by
      have hnext := h.withTree (Tree.Keeps.append b.tree scope r.block)
      rw [buildAll, bind_eq_ok, WellFormedAll]
      constructor
      · rintro ⟨after, hr, hrest⟩
        obtain ⟨hwf, rfl⟩ := (build_eq_ok h hk).mp hr
        obtain ⟨hwfs, rfl⟩ := (buildAll_eq_ok hnext hk).mp hrest
        exact ⟨⟨hwf, hwfs⟩, rfl⟩
      · rintro ⟨⟨hwf, hwfs⟩, rfl⟩
        exact ⟨_, (build_eq_ok h hk).mpr ⟨hwf, rfl⟩, (buildAll_eq_ok hnext hk).mpr ⟨hwfs, rfl⟩⟩

end

end Route

/-! ## Servers -/

namespace Server

theorem args_eq (s : Server) : s.args = ⟨(s.hostname.map Value.str).toList, s.options⟩ := by
  have hopts : Args.none.withOptions s.options = ⟨[], s.options⟩ := Args.withOptions_eq [] s.options
  rw [args, hopts]
  cases s.hostname <;> rfl

theorem given_hostname (s : Server) :
    s.args.given 0 Context.hostnameKeys =
      (s.hostname.map Value.str).toList ++ (s.options.get? "hostname").toList ++
        (s.options.get? "name").toList := by
  have hkeys : Context.hostnameKeys.filterMap s.options.get? =
      (s.options.get? "hostname").toList ++ (s.options.get? "name").toList := by
    rw [Context.hostnameKeys]
    cases hh : s.options.get? "hostname" <;> cases hn : s.options.get? "name" <;>
      simp [hh, hn]
  have hfirst : s.args.get? 0 = s.hostname.map Value.str := by
    rw [args_eq, Args.get?]
    cases s.hostname <;> rfl
  have hnamed : s.args.named? = s.options.get? := by
    rw [args_eq]
    rfl
  rw [Args.given, hfirst, hnamed, hkeys, List.append_assoc]

theorem namedOnce_iff (s : Server) :
    s.NamedOnce ↔ (s.args.given 0 Context.hostnameKeys).length ≤ 1 := by
  rw [given_hostname, NamedOnce, Table.contains, Table.contains]
  cases s.hostname <;> cases s.options.get? "hostname" <;> cases s.options.get? "name" <;> simp

theorem host_eq (s : Server) :
    s.host = (s.args.first? Context.hostnameKeys).getD Context.anyHost := by
  have hhead : (s.args.given 0 Context.hostnameKeys).head? =
      (s.hostname.map Value.str <|> s.options.get? "hostname" <|> s.options.get? "name") := by
    rw [given_hostname]
    cases s.hostname <;> cases s.options.get? "hostname" <;> cases s.options.get? "name" <;> rfl
  rw [Args.first?, hhead, host]
  generalize (s.hostname.map Value.str <|> s.options.get? "hostname" <|> s.options.get? "name") = o
  cases o with
  | none => rfl
  | some value => cases hv : value.isEmpty <;> simp [Option.filter_some, hv, Context.anyHost]

theorem enter_eq {b : Builder} {scope : NodeId} (h : b.In scope "http") {s : Server}
    (hnamed : s.NamedOnce) :
    b.enter "add_server" s.args = (.ok ⟨b.tree.size, .on scope⟩,
      b.opened scope (.container (some "server") s.blockOptions [])) := by
  have hrest : s.args.optionsExcept Context.hostnameKeys =
      s.options.without ["hostname", "name"] := by
    rw [args_eq]
    rfl
  rw [Builder.enter_add_server h (s.namedOnce_iff.mp hnamed), Builder.serverOptions, ← host_eq,
    hrest, blockOptions]

theorem keyword?_server (options : Options) :
    (⟨some "server", options, []⟩ : Container).keyword? = some "server" :=
  rfl

/-- A server attaches its block, and the cursor is where it was. -/
theorem build_eq_ok {b b' : Builder} {scope : NodeId} (h : b.In scope "http") {s : Server} :
    s.build b = .ok b' ↔
      s.NamedOnce ∧ Route.WellFormedAll s.routes
        ∧ b' = b.withTree (b.tree.append scope s.block).1 := by
  rw [build]
  by_cases hnamed : s.NamedOnce
  · have hin := h.opened (keyword?_server s.blockOptions)
    have hleave := h.leave_opened (some "server") s.blockOptions (Route.blocks s.routes)
    rw [enter_eq h hnamed]
    simp only [bind_eq_ok, pure_eq_ok, Except.ok.injEq, Route.buildAll_eq_ok hin (Or.inr rfl)]
    constructor
    · rintro ⟨after, ⟨hroutes, rfl⟩, rfl⟩
      exact ⟨hnamed, hroutes, hleave⟩
    · rintro ⟨-, hroutes, rfl⟩
      exact ⟨_, ⟨hroutes, rfl⟩, hleave⟩
  · have htwice : 1 < (s.args.given 0 Context.hostnameKeys).length :=
      Nat.lt_of_not_le fun hle => hnamed (s.namedOnce_iff.mpr hle)
    rw [Builder.enter_add_server_error h htwice]
    constructor
    · intro hok
      cases hok
    · rintro ⟨honce, -⟩
      exact absurd honce hnamed

theorem foldlM_build_eq_ok {b' : Builder} {scope : NodeId} :
    ∀ {servers : List Server} {b : Builder}, b.In scope "http" →
      (servers.foldlM build b = .ok b' ↔
        (∀ s ∈ servers, s.NamedOnce ∧ Route.WellFormedAll s.routes)
          ∧ b' = b.withTree (b.tree.appendAll scope (servers.map block)))
  | [], b, _ => by
      rw [List.foldlM_nil, pure_eq_ok, Except.ok.injEq]
      simp only [List.not_mem_nil, false_implies, implies_true, true_and]
      exact eq_comm
  | s :: rest, b, h => by
      have hnext := h.withTree (Tree.Keeps.append b.tree scope s.block)
      rw [List.foldlM_cons, bind_eq_ok, List.forall_mem_cons]
      constructor
      · rintro ⟨after, hs, hrest⟩
        obtain ⟨hnamed, hroutes, rfl⟩ := (build_eq_ok h).mp hs
        obtain ⟨hall, rfl⟩ := (foldlM_build_eq_ok hnext).mp hrest
        exact ⟨⟨⟨hnamed, hroutes⟩, hall⟩, rfl⟩
      · rintro ⟨⟨⟨hnamed, hroutes⟩, hall⟩, rfl⟩
        exact ⟨_, (build_eq_ok h).mpr ⟨hnamed, hroutes, rfl⟩,
          (foldlM_build_eq_ok hnext).mpr ⟨hall, rfl⟩⟩

end Server

/-! ## The whole configuration -/

namespace Blueprint

theorem foldlM_setOption {id : NodeId} :
    ∀ {pairs : List (String × Value)} {b : Builder}, b.tree.HasContainer id →
      pairs.foldlM (fun b p => b.setOption id p.1 p.2) b =
        .ok (b.withTree (b.tree.changeOptions id (·.insertAll pairs)))
  | [], b, _ => by
      have hsame : b.tree.changeOptions id (·.insertAll []) = b.tree :=
        Tree.modifyContainer_id b.tree id
      rw [hsame]
      rfl
  | (key, value) :: rest, b, h => by
      obtain ⟨c, hc⟩ := h
      have hset : b.setOption id key value =
          .ok (b.withTree (b.tree.changeOptions id (·.insert key value))) := by
        rw [Builder.setOption, Tree.setOption, Tree.container_eq_ok.mpr hc]
        rfl
      have hthere : (b.tree.changeOptions id (·.insert key value)).HasContainer id :=
        (Tree.Keeps.changeOptions b.tree id _).hasContainer ⟨c, hc⟩
      have htwice := Tree.changeOptions_changeOptions b.tree id (·.insert key value)
        (·.insertAll rest)
      rw [List.foldlM_cons, hset, ok_bind, foldlM_setOption (by exact hthere)]
      exact congrArg (fun t => Except.ok (b.withTree t)) htwice

/-- Options over the options of a node are set in one go. -/
theorem overlay_eq {b : Builder} {id : NodeId} (h : b.tree.HasContainer id) (options : Options) :
    Blueprint.overlay b id options =
      .ok (b.withTree (b.tree.changeOptions id (·.overlay options))) := by
  rw [overlay, foldlM_setOption h]
  simp only [Table.insertAll_eq_overlay]

/-- The tree that servers are put into, for some options of its three sections. -/
def trunk (globals events http : Options) : Tree :=
  ⟨#[⟨none, .container ⟨none, ∅, [1, 2, 3]⟩⟩,
    ⟨some 0, .container ⟨none, globals, []⟩⟩,
    ⟨some 0, .container ⟨some "events", events, []⟩⟩,
    ⟨some 0, .container ⟨some "http", http, []⟩⟩]⟩

section Trunk

variable (globals events http : Options)

theorem container?_root : (trunk globals events http).container? 0 =
    some ⟨none, ∅, [1, 2, 3]⟩ := rfl

theorem container?_globals : (trunk globals events http).container? 1 =
    some ⟨none, globals, []⟩ := rfl

theorem container?_events : (trunk globals events http).container? 2 =
    some ⟨some "events", events, []⟩ := rfl

theorem container?_http : (trunk globals events http).container? 3 =
    some ⟨some "http", http, []⟩ := rfl

theorem changeOptions_globals (f : Options → Options) :
    (trunk globals events http).changeOptions 1 f = trunk (f globals) events http := rfl

theorem changeOptions_http (f : Options → Options) :
    (trunk globals events http).changeOptions 3 f = trunk globals events (f http) := rfl

/-- With further sections in its last container, the tree is read back as a whole. -/
theorem holds_trunk (sections : List Section) :
    ((trunk globals events http).appendAll 3 sections).Holds Tree.root
      (.container none ∅ [.container none globals [], .container (some "events") events [],
        .container (some "http") http sections]) := by
  have hlt : 3 < (trunk globals events http).size := Nat.lt_succ_self 3
  have hroot := Tree.container?_appendAll hlt (container?_root globals events http) sections
  have hglobals := Tree.container?_appendAll hlt (container?_globals globals events http) sections
  have hevents := Tree.container?_appendAll hlt (container?_events globals events http) sections
  have hhttp := Tree.container?_appendAll hlt (container?_http globals events http) sections
  rw [if_neg (by decide)] at hroot hglobals hevents
  rw [if_pos rfl, List.nil_append] at hhttp
  refine Tree.holds_container.mpr ⟨[1, 2, 3], hroot, ?_⟩
  refine Tree.holdsAll_cons.mpr ⟨Tree.holds_container.mpr ⟨[], hglobals, trivial⟩, ?_⟩
  refine Tree.holdsAll_cons.mpr ⟨Tree.holds_container.mpr ⟨[], hevents, trivial⟩, ?_⟩
  refine Tree.holdsAll_cons.mpr ⟨Tree.holds_container.mpr ⟨_, hhttp, ?_⟩, trivial⟩
  exact Tree.holdsAll_appendAll hlt sections

end Trunk

theorem initialState_eq (settings : Settings) :
    Builder.initialState settings =
      ⟨trunk settings.globalOptions settings.eventOptions Builder.httpOptions, .on 3,
        ⟨1, 2, 3⟩⟩ := by
  -- One attachment at a time, for any options, so that none is evaluated.
  have hglobals : ∀ globals : Options,
      Tree.new.append Tree.root (.container none globals []) =
        (⟨#[⟨none, .container ⟨none, ∅, [1]⟩⟩, ⟨some 0, .container ⟨none, globals, []⟩⟩]⟩, 1) :=
    fun _ => rfl
  have hevents : ∀ globals events : Options,
      (⟨#[⟨none, .container ⟨none, ∅, [1]⟩⟩, ⟨some 0, .container ⟨none, globals, []⟩⟩]⟩ :
        Tree).append Tree.root (.container (some "events") events []) =
        (⟨#[⟨none, .container ⟨none, ∅, [1, 2]⟩⟩, ⟨some 0, .container ⟨none, globals, []⟩⟩,
          ⟨some 0, .container ⟨some "events", events, []⟩⟩]⟩, 2) :=
    fun _ _ => rfl
  have hhttp : ∀ globals events http : Options,
      (⟨#[⟨none, .container ⟨none, ∅, [1, 2]⟩⟩, ⟨some 0, .container ⟨none, globals, []⟩⟩,
        ⟨some 0, .container ⟨some "events", events, []⟩⟩]⟩ : Tree).append Tree.root
          (.container (some "http") http []) = (trunk globals events http, 3) :=
    fun _ _ _ => rfl
  rw [Builder.initialState, hglobals]
  simp only [hevents, hhttp]

/-- What is there before the first server. -/
def skeleton (bp : Blueprint) (id : BuilderId) : Builder :=
  (Builder.new id bp.settings).withTree
    (trunk (bp.settings.globalOptions.overlay bp.globals) bp.settings.eventOptions
      (Builder.httpOptions.overlay bp.http))

theorem in_skeleton (bp : Blueprint) (id : BuilderId) : (bp.skeleton id).In 3 "http" where
  registry := rfl
  cursor := congrArg BuildState.cursor (initialState_eq bp.settings)
  container := ⟨_, container?_http _ _ _, rfl⟩

/-- The servers are built one after the other. -/
theorem compile_eq_foldlM (bp : Blueprint) (id : BuilderId) :
    bp.compile id = bp.servers.foldlM Server.build (bp.skeleton id) := by
  have hnew : (Builder.new id bp.settings).state =
      ⟨trunk bp.settings.globalOptions bp.settings.eventOptions Builder.httpOptions, .on 3,
        ⟨1, 2, 3⟩⟩ :=
    initialState_eq bp.settings
  have hroots : (Builder.new id bp.settings).roots = ⟨1, 2, 3⟩ :=
    congrArg BuildState.roots hnew
  have htree : (Builder.new id bp.settings).tree =
      trunk bp.settings.globalOptions bp.settings.eventOptions Builder.httpOptions :=
    congrArg BuildState.tree hnew
  have hglobals : (Builder.new id bp.settings).tree.HasContainer 1 :=
    htree ▸ ⟨_, container?_globals _ _ _⟩
  have hhttp : ((Builder.new id bp.settings).withTree
      (trunk (bp.settings.globalOptions.overlay bp.globals) bp.settings.eventOptions
        Builder.httpOptions)).tree.HasContainer 3 := by
    rw [Builder.tree_withTree]
    exact ⟨_, container?_http _ _ _⟩
  rw [compile, hroots, overlay_eq hglobals, ok_bind, htree, changeOptions_globals,
    Builder.roots_withTree, hroots, overlay_eq hhttp, ok_bind, Builder.tree_withTree,
    changeOptions_http, Builder.withTree_withTree, skeleton]

theorem compile_eq_ok {bp : Blueprint} {id : BuilderId} {b : Builder} :
    bp.compile id = .ok b ↔
      bp.Valid ∧ b = (bp.skeleton id).withTree
        ((bp.skeleton id).tree.appendAll 3 (bp.servers.map Server.block)) := by
  rw [compile_eq_foldlM]
  exact Server.foldlM_build_eq_ok (bp.in_skeleton id)

/-- **Blueprints compile to what they describe.** A blueprint compiles if and only
if no server is named twice and every route has a path in one place. The tree
is then its document and nothing else, and the cursor is at the `http` block
again. -/
theorem compiles_to_document (bp : Blueprint) (id : BuilderId) :
    ((∃ b, bp.compile id = .ok b) ↔ bp.Valid)
      ∧ ∀ b, bp.compile id = .ok b →
          (∀ s, b.tree.Holds Tree.root s ↔ s = bp.document)
            ∧ b.tree.size = bp.document.slots
            ∧ b.current = some b.roots.http := by
  refine ⟨⟨?_, fun hvalid => ⟨_, compile_eq_ok.mpr ⟨hvalid, rfl⟩⟩⟩, fun b hb => ?_⟩
  · rintro ⟨b, hb⟩
    exact (compile_eq_ok.mp hb).1
  · obtain ⟨-, rfl⟩ := compile_eq_ok.mp hb
    have hholds : ((bp.skeleton id).tree.appendAll 3 (bp.servers.map Server.block)).Holds
        Tree.root bp.document :=
      holds_trunk _ _ _ _
    have hsize : (bp.skeleton id).tree.size = 4 := rfl
    have hcursor : (bp.skeleton id).current = some 3 :=
      congrArg (fun st => st.cursor.current) (initialState_eq bp.settings)
    have hroots : (bp.skeleton id).roots.http = 3 :=
      congrArg (fun st => st.roots.http) (initialState_eq bp.settings)
    refine ⟨fun s => ⟨fun hs => hs.unique hholds, fun hs => hs ▸ hholds⟩, ?_, ?_⟩
    · rw [Builder.tree_withTree, Tree.size_appendAll, hsize, document]
      simp only [Section.slots, Section.slotsOfAll]
      omega
    · rw [Builder.current_withTree, Builder.roots_withTree, hcursor, hroots]

end Blueprint

end NginxConfig
