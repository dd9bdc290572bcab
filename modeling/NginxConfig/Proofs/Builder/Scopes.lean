import NginxConfig.Builder
import NginxConfig.Proofs.Fallible
import NginxConfig.Proofs.Table
import NginxConfig.Proofs.Text.Words
import NginxConfig.Proofs.Tree.Edits

/-!
# Opening scopes

A builder opens a scope by the name of an operation. Between the name and the
new node stand the table of operations, the arguments that may be given in more
than one place, and the keyword of the scope that the cursor is in. For the two
operations that every builder starts with, all of it comes down to conditions
on the arguments: if they hold, one container is attached and the cursor goes
into it, and if not, nothing happens.
-/

namespace NginxConfig

/-! ## Keywords -/

theorem keyword?_location (path : String) (options : Options) (sections : List NodeId) :
    (⟨some (locationHeader path), options, sections⟩ : Container).keyword? = some "location" := by
  have hlist : (locationHeader path).toList =
      ['l', 'o', 'c', 'a', 't', 'i', 'o', 'n'] ++ ' ' :: path.toList := by
    rw [locationHeader, String.toList_append]
    rfl
  rw [Container.keyword?, Option.bind_some, Text.words, hlist,
    Text.wordsOf_append_blank rfl path.toList (List.cons_ne_nil _ _) rfl]
  rfl

/-! ## Arguments -/

namespace Args

/-- An argument that is given at most once is found. -/
theorem single_of_le {a : Args} {index : Nat} {keys : List String}
    (h : (a.given index keys).length ≤ 1) (operation : String) :
    a.single operation index keys = .ok (a.given index keys).head? := by
  rw [single]
  match hg : a.given index keys with
  | [] => rfl
  | [value] => rfl
  | _ :: _ :: _ => simp [hg] at h

theorem single_of_lt {a : Args} {index : Nat} {keys : List String}
    (h : 1 < (a.given index keys).length) (operation : String) :
    a.single operation index keys = .error (.invalidArguments operation (.repeated keys)) := by
  rw [single]
  match hg : a.given index keys with
  | [] => simp [hg] at h
  | [value] => simp [hg] at h
  | _ :: _ :: _ => rfl

/-- The one value given for the first argument, unless it is empty. -/
def first? (a : Args) (keys : List String) : Option Value :=
  (a.given 0 keys).head?.filter (!·.isEmpty)

/-- Options go into arguments that have none as they are. -/
theorem withOptions_eq (positional : List Value) (options : Options) :
    (⟨positional, ∅⟩ : Args).withOptions options = ⟨positional, options⟩ := by
  have hopts : (∅ : Options).insertAll options.entries = options := by
    rw [Table.insertAll_eq_overlay, Table.empty_overlay]
  exact congrArg (Args.mk positional) hopts

end Args

/-! ## A builder with the cursor in a scope -/

/-- The registry of a new builder. -/
def Registry.initial (id : BuilderId) : Registry :=
  Plugin.defaults.foldl (fun r p => r.record (.ofBuilder id) p) .empty

namespace Builder

/-- The builder knows its first operations only, and its cursor is in a scope
with a keyword. -/
structure In (b : Builder) (scope : NodeId) (keyword : String) : Prop where
  registry : b.registry = .initial b.id
  cursor : b.state.cursor = .on scope
  container : ∃ c, b.tree.container? scope = some c ∧ c.keyword? = some keyword

theorem In.hasContainer {b : Builder} {scope : NodeId} {keyword : String}
    (h : b.In scope keyword) : b.tree.HasContainer scope := by
  obtain ⟨c, hc, -⟩ := h.container
  exact ⟨c, hc⟩

@[simp] theorem tree_withTree (b : Builder) (t : Tree) : (b.withTree t).tree = t := rfl

@[simp] theorem roots_withTree (b : Builder) (t : Tree) : (b.withTree t).roots = b.roots := rfl

@[simp] theorem current_withTree (b : Builder) (t : Tree) :
    (b.withTree t).current = b.current := rfl

@[simp] theorem withTree_withTree (b : Builder) (t u : Tree) :
    (b.withTree t).withTree u = b.withTree u := rfl

/-- The builder after a scope was opened in a scope. -/
def opened (b : Builder) (scope : NodeId) (s : Section) : Builder :=
  { b with state := { b.state with tree := (b.tree.append scope s).1, cursor := .on b.tree.size } }

/-- A later tree of the same build. -/
theorem In.withTree {b : Builder} {scope : NodeId} {keyword : String} (h : b.In scope keyword)
    {t : Tree} (ht : b.tree.Keeps t) : (b.withTree t).In scope keyword where
  registry := h.registry
  cursor := h.cursor
  container := by
    obtain ⟨c, hc, hk⟩ := h.container
    obtain ⟨c', hc', hheader⟩ := ht.container hc
    refine ⟨c', hc', ?_⟩
    rw [Container.keyword?, hheader]
    exact hk

theorem In.opened {b : Builder} {scope : NodeId} {keyword : String} (h : b.In scope keyword)
    {header : Option String} {options : Options} {inner : String}
    (hinner : (⟨header, options, []⟩ : Container).keyword? = some inner) :
    (b.opened scope (.container header options [])).In b.tree.size inner where
  registry := h.registry
  cursor := rfl
  container :=
    ⟨_, Tree.container?_append_empty h.hasContainer.lt_size header options, hinner⟩

/-- The one check that an attachment makes is on the keyword of the scope. -/
theorem In.openScope_eq {b : Builder} {scope : NodeId} {keyword : String} (h : b.In scope keyword)
    {ctx : Context} (hk : ctx.allowed.contains keyword = true) (s : Section) :
    ctx.openScope b.state s = .ok ((b.opened scope s).state, .scope b.tree.size) := by
  obtain ⟨c, hc, hkeyword⟩ := h.container
  have hcontainer : b.state.tree.container scope = .ok c := Tree.container_eq_ok.mpr hc
  have hpermitted : (ctx.allowed.isEmpty || c.keyword?.any ctx.allowed.contains) = true := by
    rw [hkeyword, Option.any_some, hk, Bool.or_true]
  have hattach : b.state.tree.attach scope s = .ok (b.state.tree.append scope s) := by
    rw [Tree.attach, hcontainer, ok_bind, pure_eq_ok]
  have hcursor : b.state.cursor.attach b.state.tree s ctx.plugin ctx.allowed =
      .ok (b.state.tree.append scope s) := by
    rw [Cursor.attach, h.cursor]
    simp only [Cursor.on]
    rw [hcontainer, ok_bind, if_pos hpermitted, hattach]
  rw [Context.openScope, Context.attach, hcursor]
  simp only [ok_bind, pure_eq_ok]
  rw [Tree.append_snd]
  rfl

/-- To open a scope, fill it and leave it is to attach it with its content. -/
theorem In.leave_opened {b : Builder} {scope : NodeId} {keyword : String}
    (h : b.In scope keyword) (header : Option String) (options : Options)
    (sections : List Section) :
    ((b.opened scope (.container header options [])).withTree
        ((b.opened scope (.container header options [])).tree.appendAll b.tree.size
          sections)).leave ⟨b.tree.size, .on scope⟩ =
      b.withTree (b.tree.append scope (.container header options sections)).1 := by
  rw [Tree.append_container h.hasContainer.lt_size, ← h.cursor]
  rfl

/-! ## By name -/

theorem dispatch_add_server {r : Registry} {id : BuilderId} (h : r = .initial id)
    (st : BuildState) (args : Args) :
    dispatch r callDepth st "add_server" args =
      .ofStep st ((⟨"server", ["http"]⟩ : Context).addServer args st) := by
  subst h
  rfl

theorem dispatch_add_route {r : Registry} {id : BuilderId} (h : r = .initial id)
    (st : BuildState) (args : Args) :
    dispatch r callDepth st "add_route" args =
      .ofStep st ((⟨"route", ["location", "server"]⟩ : Context).addRoute args st) := by
  subst h
  rfl

/-- An operation that opens a scope. -/
theorem enter_of_ok {b : Builder} {operation : String} {args : Args} {st : BuildState}
    {node : NodeId} (h : dispatch b.registry callDepth b.state operation args =
      .ofStep b.state (.ok (st, .scope node))) :
    b.enter operation args = (.ok ⟨node, b.state.cursor⟩, { b with state := st }) := by
  rw [enter, call, h]
  rfl

/-- An operation that fails at its only step. -/
theorem enter_of_error {b : Builder} {operation : String} {args : Args} {e : Error}
    (h : dispatch b.registry callDepth b.state operation args = .ofStep b.state (.error e)) :
    b.enter operation args = (.error e, b) := by
  rw [enter, call, h]
  rfl

/-! ## Servers -/

/-- The options of a server: the host name, and then all that do not give it. -/
def serverOptions (args : Args) : Options :=
  (Table.ofList [("server_name", (args.first? Context.hostnameKeys).getD Context.anyHost)]).overlay
    (args.optionsExcept Context.hostnameKeys)

theorem enter_add_server {b : Builder} {scope : NodeId} (h : b.In scope "http") {args : Args}
    (hgiven : (args.given 0 Context.hostnameKeys).length ≤ 1) :
    b.enter "add_server" args = (.ok ⟨b.tree.size, .on scope⟩,
      b.opened scope (.container (some "server") (serverOptions args) [])) := by
  have hhost : Context.argumentOr args "add_server" Context.hostnameKeys Context.anyHost =
      .ok ((args.first? Context.hostnameKeys).getD Context.anyHost) := by
    rw [Context.argumentOr, Args.single_of_le hgiven, ok_bind, pure_eq_ok, Args.first?]
  have hstep : (⟨"server", ["http"]⟩ : Context).addServer args b.state = .ok
      ((b.opened scope (.container (some "server") (serverOptions args) [])).state,
        .scope b.tree.size) := by
    rw [Context.addServer, hhost, ok_bind]
    simp only [Table.insertAll_eq_overlay]
    exact h.openScope_eq rfl _
  have hdispatch := dispatch_add_server h.registry b.state args
  rw [hstep] at hdispatch
  rw [enter_of_ok hdispatch, h.cursor]
  rfl

theorem enter_add_server_error {b : Builder} {scope : NodeId} (h : b.In scope "http") {args : Args}
    (hgiven : 1 < (args.given 0 Context.hostnameKeys).length) :
    b.enter "add_server" args =
      (.error (.invalidArguments "add_server" (.repeated Context.hostnameKeys)), b) := by
  have hdispatch := dispatch_add_server h.registry b.state args
  rw [Context.addServer, Context.argumentOr, Args.single_of_lt hgiven] at hdispatch
  exact enter_of_error hdispatch

/-! ## Routes -/

theorem enter_add_route {b : Builder} {scope : NodeId} {keyword : String} (h : b.In scope keyword)
    (hk : keyword = "location" ∨ keyword = "server") {args : Args} {path : Value}
    (hgiven : (args.given 0 Context.pathKeys).length ≤ 1)
    (hpath : args.first? Context.pathKeys = some path) :
    b.enter "add_route" args = (.ok ⟨b.tree.size, .on scope⟩,
      b.opened scope (.container (some (locationHeader path.text))
        (args.optionsExcept Context.pathKeys) [])) := by
  have hallowed : (["location", "server"] : List String).contains keyword = true := by
    rcases hk with rfl | rfl <;> rfl
  have hstep : (⟨"route", ["location", "server"]⟩ : Context).addRoute args b.state = .ok
      ((b.opened scope (.container (some (locationHeader path.text))
        (args.optionsExcept Context.pathKeys) [])).state, .scope b.tree.size) := by
    rw [Args.first?] at hpath
    rw [Context.addRoute, Args.single_of_le hgiven, ok_bind, hpath]
    exact h.openScope_eq hallowed _
  have hdispatch := dispatch_add_route h.registry b.state args
  rw [hstep] at hdispatch
  rw [enter_of_ok hdispatch, h.cursor]
  rfl

theorem enter_add_route_repeated {b : Builder} {scope : NodeId} {keyword : String}
    (h : b.In scope keyword) {args : Args}
    (hgiven : 1 < (args.given 0 Context.pathKeys).length) :
    b.enter "add_route" args =
      (.error (.invalidArguments "add_route" (.repeated Context.pathKeys)), b) := by
  have hdispatch := dispatch_add_route h.registry b.state args
  rw [Context.addRoute, Args.single_of_lt hgiven] at hdispatch
  exact enter_of_error hdispatch

theorem enter_add_route_missing {b : Builder} {scope : NodeId} {keyword : String}
    (h : b.In scope keyword) {args : Args}
    (hgiven : (args.given 0 Context.pathKeys).length ≤ 1)
    (hpath : args.first? Context.pathKeys = none) :
    b.enter "add_route" args = (.error (.invalidArguments "add_route" .missingPath), b) := by
  have hdispatch := dispatch_add_route h.registry b.state args
  rw [Args.first?] at hpath
  rw [Context.addRoute, Args.single_of_le hgiven, ok_bind, hpath] at hdispatch
  exact enter_of_error hdispatch

end Builder

end NginxConfig
