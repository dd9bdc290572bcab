import NginxConfig.Proofs.Builder.Failure
import NginxConfig.Proofs.Builder.Scopes
import NginxConfig.Proofs.Registry.Consistent

/-!
# What a new builder can do to its tree

A builder that knows only its first plugins has two ways to change the sections
of its tree: a server goes into a scope with the keyword `http`, and a location
into one with the keyword `server` or `location`. The keyword is all that the
plugins look at, and the cursor can be in any scope. `dispatch_initial` says
that nothing else happens, whatever the operation is called and whatever its
arguments are.
-/

namespace NginxConfig

/-! ## Opening a scope -/

/-- One more scope in a tree, where the first plugins allow it. -/
inductive Tree.Opens (t : Tree) : Tree → Prop
  | server {scope : NodeId} {c : Container} (options : Options)
      (hscope : t.container? scope = some c) (hkeyword : c.keyword? = some "http") :
      t.Opens (t.append scope (.container (some "server") options [])).1
  | location {scope : NodeId} {c : Container} (path : String) (options : Options)
      (hscope : t.container? scope = some c)
      (hkeyword : c.keyword? = some "location" ∨ c.keyword? = some "server") :
      t.Opens (t.append scope (.container (some (locationHeader path)) options [])).1

/-- An attachment that is limited to some keywords is made under one of them. -/
theorem Cursor.attach_eq_ok {cursor : Cursor} {t : Tree} {s : Section} {plugin : String}
    {allowed : List String} {r : Tree × NodeId} (hlimited : allowed ≠ [])
    (h : cursor.attach t s plugin allowed = .ok r) :
    ∃ scope c keyword, t.container? scope = some c ∧ c.keyword? = some keyword
      ∧ keyword ∈ allowed ∧ r = t.append scope s := by
  rw [attach] at h
  cases hcurrent : cursor.current with
  | none =>
      rw [hcurrent] at h
      cases h
  | some scope =>
      rw [hcurrent] at h
      obtain ⟨c, hc, h⟩ := bind_eq_ok.mp h
      simp only at h
      split at h
      · next hpermitted =>
          have hempty : allowed.isEmpty = false := by
            rw [← Bool.not_eq_true, List.isEmpty_iff]
            exact hlimited
          rw [hempty, Bool.false_or, Option.any_eq_true] at hpermitted
          obtain ⟨keyword, hkeyword, hmem⟩ := hpermitted
          exact ⟨scope, c, keyword, Tree.container_eq_ok.mp hc, hkeyword,
            List.contains_iff_mem.mp hmem, (Tree.attach_eq_ok.mp h).2.symm⟩
      · cases h

namespace Context

variable {ctx : Context} {args : Args} {st : BuildState} {r : BuildState × Reply}

theorem openScope_eq_ok {s : Section} (hlimited : ctx.allowed ≠ [])
    (h : ctx.openScope st s = .ok r) :
    ∃ scope c keyword, st.tree.container? scope = some c ∧ c.keyword? = some keyword
      ∧ keyword ∈ ctx.allowed ∧ r.1.tree = (st.tree.append scope s).1 ∧ r.1.roots = st.roots := by
  obtain ⟨⟨after, id⟩, hattach, h⟩ := bind_eq_ok.mp h
  obtain ⟨⟨tree, id'⟩, hcursor, hattach⟩ := bind_eq_ok.mp hattach
  obtain ⟨scope, c, keyword, hc, hkeyword, hmem, happend⟩ := Cursor.attach_eq_ok hlimited hcursor
  obtain ⟨rfl, -⟩ := Prod.mk.inj (Except.ok.inj hattach)
  obtain rfl := Except.ok.inj h
  exact ⟨scope, c, keyword, hc, hkeyword, hmem, congrArg Prod.fst happend, rfl⟩

theorem addServer_eq_ok (h : ctx.addServer args st = .ok r) :
    ∃ options, ctx.openScope st (.container (some "server") options []) = .ok r := by
  obtain ⟨hostname, -, h⟩ := bind_eq_ok.mp h
  exact ⟨_, h⟩

theorem addRoute_eq_ok (h : ctx.addRoute args st = .ok r) :
    ∃ path options,
      ctx.openScope st (.container (some (locationHeader path)) options []) = .ok r := by
  obtain ⟨given, -, h⟩ := bind_eq_ok.mp h
  split at h
  · cases h
  · exact ⟨_, _, h⟩

end Context

/-- What a step may do to the tree: it opens one scope or leaves it as it is. -/
def BuildState.Grows (st st' : BuildState) : Prop :=
  st'.roots = st.roots ∧ (st'.tree = st.tree ∨ st.tree.Opens st'.tree)

theorem BuildState.Grows.refl (st : BuildState) : st.Grows st :=
  ⟨rfl, Or.inl rfl⟩

theorem Context.grows_of_addServer {args : Args} {st : BuildState} {r : BuildState × Reply}
    (h : (⟨"server", ["http"]⟩ : Context).addServer args st = .ok r) : st.Grows r.1 := by
  obtain ⟨options, hopen⟩ := addServer_eq_ok h
  obtain ⟨scope, c, keyword, hc, hkeyword, hmem, htree, hroots⟩ :=
    openScope_eq_ok (List.cons_ne_nil _ _) hopen
  obtain rfl := List.mem_singleton.mp hmem
  refine ⟨hroots, Or.inr ?_⟩
  rw [htree]
  exact .server options hc hkeyword

theorem Context.grows_of_addRoute {args : Args} {st : BuildState} {r : BuildState × Reply}
    (h : (⟨"route", ["location", "server"]⟩ : Context).addRoute args st = .ok r) :
    st.Grows r.1 := by
  obtain ⟨path, options, hopen⟩ := addRoute_eq_ok h
  obtain ⟨scope, c, keyword, hc, hkeyword, hmem, htree, hroots⟩ :=
    openScope_eq_ok (List.cons_ne_nil _ _) hopen
  have hallowed : c.keyword? = some "location" ∨ c.keyword? = some "server" := by
    rw [hkeyword]
    rcases List.mem_cons.mp hmem with rfl | hserver
    · exact Or.inl rfl
    · exact Or.inr (congrArg some (List.mem_singleton.mp hserver))
  refine ⟨hroots, Or.inr ?_⟩
  rw [htree]
  exact .location path options hc hallowed

theorem Outcome.grows_ofStep {st : BuildState} {x : Except Error (BuildState × Reply)}
    (h : ∀ {r}, x = .ok r → st.Grows r.1) : st.Grows (Outcome.ofStep st x).state := by
  cases x with
  | ok r => exact h rfl
  | error e => exact .refl st

/-! ## The operations that every builder starts with -/

theorem Registry.consistent_initial (id : BuilderId) : (Registry.initial id).Consistent := by
  have hroute : (Registry.empty.record (.ofBuilder id) .route).Consistent :=
    Registry.Consistent.empty.record (fun q hq => absurd hq (Array.not_mem_empty q))
      (fun op _ q hq => absurd hq (Array.not_mem_empty q))
  refine hroute.record (fun q hq => ?_) (fun op hop q hq => ?_)
  all_goals
    obtain rfl : q = ⟨.ofBuilder id, .route⟩ := List.mem_singleton.mp (Array.mem_toList_iff.mpr hq)
  · exact (by decide : Plugin.route.name ≠ Plugin.server.name)
  · obtain rfl : op = "add_server" := List.mem_singleton.mp hop
    exact (by decide : "add_server" ∉ Plugin.route.operations.keys)

theorem Registry.mem_initial {id : BuilderId} {q : Registered} :
    q ∈ (Registry.initial id).plugins ↔
      q = ⟨.ofBuilder id, .route⟩ ∨ q = ⟨.ofBuilder id, .server⟩ := by
  have hlist : (Registry.initial id).plugins.toList =
      [(⟨.ofBuilder id, .route⟩ : Registered), ⟨.ofBuilder id, .server⟩] := rfl
  rw [← Array.mem_toList_iff, hlist, List.mem_cons, List.mem_singleton]

/-- The two operations, each with the plugin that it attaches for. -/
theorem Registry.lookup?_initial {id : BuilderId} {op : String} {plugin : Registered}
    {code : Operation} (h : (Registry.initial id).lookup? op = some (plugin, code)) :
    plugin.context = ⟨"server", ["http"]⟩ ∧ code = .addServer
      ∨ plugin.context = ⟨"route", ["location", "server"]⟩ ∧ code = .addRoute := by
  obtain ⟨hmem, hcode⟩ := (consistent_initial id).lookup?_eq_some.mp h
  rcases mem_initial.mp hmem with rfl | rfl
  · have hop : op = "add_route" := List.mem_singleton.mp (mem_operations.mpr ⟨code, hcode⟩)
    subst hop
    exact Or.inr ⟨rfl, (Option.some.inj hcode).symm⟩
  · have hop : op = "add_server" := List.mem_singleton.mp (mem_operations.mpr ⟨code, hcode⟩)
    subst hop
    exact Or.inl ⟨rfl, (Option.some.inj hcode).symm⟩

/-- Whatever is called, the tree grows by one scope at most. -/
theorem dispatch_initial (id : BuilderId) (depth : Nat) (st : BuildState) (operation : String)
    (args : Args) : st.Grows (dispatch (.initial id) depth st operation args).state := by
  cases depth with
  | zero => exact .refl st
  | succ depth =>
      rw [dispatch, dispatchWith]
      cases hnative : native? st operation with
      | some o =>
          rcases native?_cases hnative with rfl | hsame
          · exact ⟨rfl, Or.inl rfl⟩
          · exact ⟨congrArg BuildState.roots hsame, Or.inl (congrArg BuildState.tree hsame)⟩
      | none =>
          cases hfound : (Registry.initial id).lookup? operation with
          | none => exact .refl st
          | some found =>
              obtain ⟨plugin, code⟩ := found
              simp only
              rcases Registry.lookup?_initial hfound with ⟨hctx, rfl⟩ | ⟨hctx, rfl⟩
              · rw [Operation.run, hctx]
                exact Outcome.grows_ofStep Context.grows_of_addServer
              · rw [Operation.run, hctx]
                exact Outcome.grows_ofStep Context.grows_of_addRoute

end NginxConfig
