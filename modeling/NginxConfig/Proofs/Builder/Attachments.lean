import NginxConfig.Proofs.Builder.Failure
import NginxConfig.Proofs.Builder.Shape

/-!
# Who attached what

A run is written down as a log: where an operation of a plugin begins and ends,
which attachments are made or refused in between, how the cursor moves, and
which options are set. The log is enough to make the run again
(`Moment.replay`), so nothing is attached that it does not mention.

Whose operation is running is not part of an entry. It follows from the
operations that have begun and not ended, the latest first. `InOrder` says of
every entry that it is right at its place: an attachment is made exactly if the
plugin that is first in line allows the scope at the cursor. As no entry takes a
node from its parent or changes a header, what was allowed once can be seen in
every later tree (`attachments_are_allowed`).
-/

namespace NginxConfig

/-! ## The log of a run -/

/-- An entry in the log of a run. -/
inductive Event where
  /-- An operation of the plugin begins. -/
  | begins (plugin : Registered)
  /-- The operation that began last ends, with or without an error. -/
  | ends
  /-- A section goes under the scope at the cursor. -/
  | attaches (s : Section)
  /-- A section is kept from going there. -/
  | refuses (s : Section)
  | moves (cursor : Cursor)
  | sets (id : NodeId) (key : String) (value : Value)

namespace Context

def attachEvents (ctx : Context) (st : BuildState) (s : Section) : List Event :=
  match ctx.attach st s with
  | .ok _ => [.attaches s]
  | .error _ => [.refuses s]

/-- To open a scope is to attach it and to go there. -/
def openEvents (ctx : Context) (st : BuildState) (s : Section) : List Event :=
  match ctx.attach st s with
  | .ok (_, id) => [.attaches s, .moves (.on id)]
  | .error _ => [.refuses s]

/-- The section that is opened for a server. -/
def serverSection (args : Args) : Except Error Section := do
  let hostname ← argumentOr args "add_server" hostnameKeys anyHost
  let options := (Table.ofList [("server_name", hostname)]).insertAll
    (args.optionsExcept hostnameKeys).entries
  return .container (some "server") options []

/-- The section that is opened for a route. -/
def routeSection (args : Args) : Except Error Section := do
  let given ← args.single "add_route" 0 pathKeys
  match given.filter (!·.isEmpty) with
  | none => throw (.invalidArguments "add_route" .missingPath)
  | some path =>
    return .container (some (locationHeader path.text)) (args.optionsExcept pathKeys) []

/-- With arguments that are refused, nothing is attempted. -/
def openedEvents (ctx : Context) (st : BuildState) : Except Error Section → List Event
  | .ok s => ctx.openEvents st s
  | .error _ => []

end Context

/-- The entries of a step other than a call or an attempt. -/
def Frame.events (f : Frame) (st : RunState) : Step → List Event
  | .attach s => f.context.attachEvents st.build s
  | .attachArgument name index keys default =>
    f.context.attachEvents st.build
      (.directive (.ofValue name ((f.args.lookup? index keys).getD default)))
  | .openScope s => f.context.openEvents st.build s
  | .addRoute args => f.context.openedEvents st.build (Context.routeSection (f.argsOf args))
  | .descend node =>
    match f.resolve st node with
    | .ok id => [.moves (.on id)]
    | .error _ => []
  | .ascend => [.moves (st.build.cursor.ascend st.build.tree)]
  | .setOption node key value =>
    match f.resolve st node with
    | .ok id =>
      match st.build.tree.setOption id key value with
      | .ok _ => [.sets id key value]
      | .error _ => []
    | .error _ => []
  | _ => []

/-- The entries of an operation that is run by name. -/
abbrev Chronicle := BuildState → String → Args → List Event

namespace Step

def events (chronicle : Chronicle) (f : Frame) (st : RunState) : Step → List Event
  | .call operation args => chronicle st.build operation (f.argsOf args)
  | .attempt step => step.events chronicle f st
  | step => f.events st step

/-- The entries of a script, up to the step that fails. -/
def eventsAll (chronicle : Chronicle) (callee : Callee) (f : Frame) (st : RunState) :
    List Step → List Event
  | [] => []
  | step :: rest =>
    step.events chronicle f st ++
      match step.run callee f st with
      | (.ok _, st) => eventsAll chronicle callee f st rest
      | (.error _, _) => []

end Step

def Operation.events (chronicle : Chronicle) (callee : Callee) (f : Frame) (st : BuildState) :
    Operation → List Event
  | .addServer => f.context.openedEvents st (Context.serverSection f.args)
  | .addRoute => f.context.openedEvents st (Context.routeSection f.args)
  | .script steps => Step.eventsAll chronicle callee f ⟨st, none⟩ steps

/-- The entries of a call, which may nest to the given depth. -/
def dispatchEvents (r : Registry) : Nat → Chronicle
  | 0 => fun _ _ _ => []
  | depth + 1 => fun st operation args =>
    match native? st operation with
    | some o => [.moves o.state.cursor]
    | none =>
      match r.lookup? operation with
      | none => []
      | some (plugin, code) =>
        .begins plugin ::
          code.events (dispatchEvents r depth) (dispatch r depth) (plugin.frame operation args) st ++
            [.ends]

namespace Builder

/-- The entries of one action. -/
def events (b : Builder) : Action → List Event
  | .call operation args => dispatchEvents b.registry callDepth b.state operation args
  | .enter operation args =>
    dispatchEvents b.registry callDepth b.state operation args ++
      [.moves (b.enter operation args).2.state.cursor]
  | .leave s => [.moves s.restoreTo]
  | .up => [.moves b.up.state.cursor]
  | .descend id => [.moves (b.act (.descend id)).state.cursor]
  | .setOption id key value =>
    match b.setOption id key value with
    | .ok _ => [.sets id key value]
    | .error _ => []

def eventsAll (b : Builder) : List Action → List Event
  | [] => []
  | a :: rest => b.events a ++ (b.act a).eventsAll rest

end Builder

/-! ## Making a run again -/

/-- The state of a build, and the plugins whose operations have begun and not
ended, the latest first. -/
structure Moment where
  state : BuildState
  running : List Registered

namespace Moment

def after (m : Moment) : Event → Moment
  | .begins plugin => { m with running := plugin :: m.running }
  | .ends => { m with running := m.running.tail }
  | .attaches s =>
    match m.state.cursor.current with
    | some scope => { m with state := { m.state with tree := (m.state.tree.append scope s).1 } }
    | none => m
  | .refuses _ => m
  | .moves cursor => { m with state := { m.state with cursor } }
  | .sets id key value =>
    { m with state :=
      { m.state with tree := m.state.tree.changeOptions id (·.insert key value) } }

def replay (m : Moment) (log : List Event) : Moment :=
  log.foldl after m

theorem replay_append (m : Moment) (log more : List Event) :
    m.replay (log ++ more) = (m.replay log).replay more :=
  List.foldl_append

end Moment

/-! ## What a plugin allows -/

/-- The keyword of the container is one of those allowed, or none is asked for. -/
def Container.Fits (c : Container) (allowed : List String) : Prop :=
  allowed = [] ∨ ∃ keyword ∈ allowed, c.keyword? = some keyword

/-- The cursor is at a container that the plugin may attach under. -/
def BuildState.Allows (st : BuildState) (allowed : List String) (scope : NodeId) : Prop :=
  st.cursor.current = some scope ∧ ∃ c, st.tree.container? scope = some c ∧ c.Fits allowed

namespace Moment

/-- An entry is right at its place in the log. -/
def Fair (m : Moment) : Event → Prop
  | .attaches _ => ∃ plugin outer scope, m.running = plugin :: outer
      ∧ m.state.Allows plugin.validParents scope
  | .refuses _ => ∃ plugin outer, m.running = plugin :: outer
      ∧ ∀ scope, ¬ m.state.Allows plugin.validParents scope
  | _ => True

def InOrder (m : Moment) : List Event → Prop
  | [] => True
  | e :: rest => m.Fair e ∧ (m.after e).InOrder rest

theorem inOrder_append {m : Moment} {log more : List Event} :
    m.InOrder (log ++ more) ↔ m.InOrder log ∧ (m.replay log).InOrder more := by
  induction log generalizing m with
  | nil => exact (true_and _).symm ▸ Iff.rfl
  | cons e rest ih =>
      rw [List.cons_append, InOrder, InOrder, ih, and_assoc]
      rfl

/-- The log is that of what goes on from one state to another, while some
operations are running. -/
structure Tells (running : List Registered) (st : BuildState) (log : List Event)
    (st' : BuildState) : Prop where
  replay_eq : (⟨st, running⟩ : Moment).replay log = ⟨st', running⟩
  inOrder : (⟨st, running⟩ : Moment).InOrder log

namespace Tells

variable {running : List Registered} {st st' st'' : BuildState} {log more : List Event}

theorem nil (running : List Registered) (st : BuildState) : Tells running st [] st :=
  ⟨rfl, trivial⟩

theorem append (h : Tells running st log st') (h' : Tells running st' more st'') :
    Tells running st (log ++ more) st'' where
  replay_eq := by rw [replay_append, h.replay_eq, h'.replay_eq]
  inOrder := inOrder_append.mpr ⟨h.inOrder, by rw [h.replay_eq]; exact h'.inOrder⟩

theorem moves (running : List Registered) (st : BuildState) (cursor : Cursor) :
    Tells running st [.moves cursor] { st with cursor } :=
  ⟨rfl, trivial, trivial⟩

theorem sets {t : Tree} {id : NodeId} {key : String} {value : Value}
    (h : st.tree.setOption id key value = .ok t) :
    Tells running st [.sets id key value] { st with tree := t } := by
  rw [Tree.changeOptions_of_setOption h]
  exact ⟨rfl, trivial, trivial⟩

theorem attaches {plugin : Registered} {outer : List Registered} {scope : NodeId}
    (h : st.Allows plugin.validParents scope) (s : Section) :
    Tells (plugin :: outer) st [.attaches s]
      { st with tree := (st.tree.append scope s).1 } where
  replay_eq := by simp only [replay, List.foldl_cons, List.foldl_nil, after, h.1]
  inOrder := ⟨⟨plugin, outer, scope, rfl, h⟩, trivial⟩

theorem refuses {plugin : Registered} {outer : List Registered}
    (h : ∀ scope, ¬ st.Allows plugin.validParents scope) (s : Section) :
    Tells (plugin :: outer) st [.refuses s] st :=
  ⟨rfl, ⟨plugin, outer, rfl, h⟩, trivial⟩

/-- When an operation has ended, those that ran before are running again. -/
theorem begins {plugin : Registered} (h : Tells (plugin :: running) st log st') :
    Tells running st (.begins plugin :: log ++ [.ends]) st' where
  replay_eq := by
    rw [replay_append, replay, List.foldl_cons]
    exact congrArg (fun m => after m .ends) h.replay_eq
  inOrder := inOrder_append.mpr ⟨⟨trivial, h.inOrder⟩, trivial, trivial⟩

end Tells

end Moment

/-! ## The check -/

theorem Container.fits_iff {c : Container} {allowed : List String} :
    (allowed.isEmpty || c.keyword?.any allowed.contains) = true ↔ c.Fits allowed := by
  rw [Bool.or_eq_true, List.isEmpty_iff, Option.any_eq_true, Fits]
  refine or_congr Iff.rfl ⟨?_, ?_⟩
  · rintro ⟨keyword, hkeyword, hmem⟩
    exact ⟨keyword, List.contains_iff_mem.mp hmem, hkeyword⟩
  · rintro ⟨keyword, hmem, hkeyword⟩
    exact ⟨keyword, hkeyword, List.contains_iff_mem.mpr hmem⟩

namespace BuildState

variable {st : BuildState} {plugin : String} {allowed : List String}

theorem Allows.hasContainer {scope : NodeId} (h : st.Allows allowed scope) :
    st.tree.HasContainer scope :=
  have ⟨_, c, hc, _⟩ := h
  ⟨c, hc⟩

/-- Why a plugin can attach nothing at the cursor. -/
inductive Bars (st : BuildState) (plugin : String) (allowed : List String) : Error → Prop
  | nowhere (h : st.cursor.current = none) :
      st.Bars plugin allowed (.invalidParent plugin Cursor.noScope allowed)
  | place {scope : NodeId} {e : Error} (h : st.cursor.current = some scope)
      (hr : st.tree.Refuses scope e) : st.Bars plugin allowed e
  | keyword {scope : NodeId} {c : Container} (h : st.cursor.current = some scope)
      (hc : st.tree.container? scope = some c) (hf : ¬ c.Fits allowed) :
      st.Bars plugin allowed
        (.invalidParent plugin (c.keyword?.getD Cursor.anonymousScope) allowed)

theorem allows_or_bars (st : BuildState) (plugin : String) (allowed : List String) :
    (∃ scope, st.Allows allowed scope) ∨ ∃ e, st.Bars plugin allowed e := by
  cases hcurrent : st.cursor.current with
  | none => exact Or.inr ⟨_, .nowhere hcurrent⟩
  | some scope =>
      cases hscope : st.tree.container scope with
      | error e => exact Or.inr ⟨e, .place hcurrent (Tree.container_eq_error.mp hscope)⟩
      | ok c =>
          have hc : st.tree.container? scope = some c := Tree.container_eq_ok.mp hscope
          by_cases hfits : c.Fits allowed
          · exact Or.inl ⟨scope, hcurrent, c, hc, hfits⟩
          · exact Or.inr ⟨_, .keyword hcurrent hc hfits⟩

theorem Bars.not_allows {e : Error} (h : st.Bars plugin allowed e) (scope : NodeId) :
    ¬ st.Allows allowed scope := by
  rintro ⟨hcursor, c, hc, hfits⟩
  cases h with
  | nowhere hcurrent => cases hcurrent.symm.trans hcursor
  | place hcurrent hr =>
      obtain rfl := Option.some.inj (hcurrent.symm.trans hcursor)
      exact Tree.exists_refuses.mp ⟨e, hr⟩ ⟨c, hc⟩
  | keyword hcurrent hc' hf =>
      obtain rfl := Option.some.inj (hcurrent.symm.trans hcursor)
      obtain rfl := Option.some.inj (hc.symm.trans hc')
      exact hf hfits

end BuildState

namespace Context

variable {ctx : Context} {st : BuildState}

theorem attach_of_allows {scope : NodeId} (h : st.Allows ctx.allowed scope) (s : Section) :
    ctx.attach st s = .ok ({ st with tree := (st.tree.append scope s).1 }, st.tree.size) := by
  obtain ⟨hcurrent, c, hc, hfits⟩ := h
  have hattach : st.tree.attach scope s = .ok (st.tree.append scope s) :=
    Tree.attach_eq_ok.mpr ⟨⟨c, hc⟩, rfl⟩
  rw [attach, Cursor.attach, hcurrent]
  simp only [Tree.container_eq_ok.mpr hc, ok_bind]
  rw [if_pos (Container.fits_iff.mpr hfits), hattach, ok_bind, Tree.append_snd]
  rfl

theorem attach_of_bars {e : Error} (h : st.Bars ctx.plugin ctx.allowed e) (s : Section) :
    ctx.attach st s = .error e := by
  rw [attach, Cursor.attach]
  cases h with
  | nowhere hcurrent =>
      rw [hcurrent]
      rfl
  | place hcurrent hr =>
      rw [hcurrent]
      simp only [Tree.container_eq_error.mpr hr, error_bind]
  | keyword hcurrent hc hf =>
      rw [hcurrent]
      simp only [Tree.container_eq_ok.mpr hc, ok_bind]
      rw [if_neg fun h => hf (Container.fits_iff.mp h)]
      rfl

/-- An attachment is made if the scope at the cursor is allowed, and otherwise
it is refused. -/
theorem attach_cases (ctx : Context) (st : BuildState) (s : Section) :
    (∃ scope, st.Allows ctx.allowed scope
        ∧ ctx.attach st s = .ok ({ st with tree := (st.tree.append scope s).1 }, st.tree.size))
      ∨ (∀ scope, ¬ st.Allows ctx.allowed scope) ∧ ∃ e, ctx.attach st s = .error e := by
  rcases st.allows_or_bars ctx.plugin ctx.allowed with ⟨scope, hallows⟩ | ⟨e, hbars⟩
  · exact Or.inl ⟨scope, hallows, attach_of_allows hallows s⟩
  · exact Or.inr ⟨hbars.not_allows, e, attach_of_bars hbars s⟩

theorem addServer_eq (ctx : Context) (args : Args) (st : BuildState) :
    ctx.addServer args st = serverSection args >>= ctx.openScope st := by
  rw [addServer, serverSection]
  cases argumentOr args "add_server" hostnameKeys anyHost <;> rfl

theorem addRoute_eq (ctx : Context) (args : Args) (st : BuildState) :
    ctx.addRoute args st = routeSection args >>= ctx.openScope st := by
  rw [addRoute, routeSection]
  cases args.single "add_route" 0 pathKeys with
  | error e => rfl
  | ok given =>
      rw [ok_bind, ok_bind]
      cases given.filter (!·.isEmpty) <;> rfl

end Context

/-! ## From steps to runs -/

@[simp] theorem RunState.build_after (st : RunState) (o : Outcome) :
    (st.after o).2.build = o.state := by
  rw [after]
  cases o.result <;> rfl

section Running

open Moment

variable {plugin : Registered} {outer : List Registered}

theorem Context.tells_openScope (st : BuildState) (s : Section) :
    Tells (plugin :: outer) st (plugin.context.openEvents st s)
      (Outcome.ofStep st (plugin.context.openScope st s)).state := by
  rw [openEvents, openScope]
  rcases plugin.context.attach_cases st s with ⟨scope, hallows, heq⟩ | ⟨hnot, e, heq⟩
  · rw [heq]
    exact (Tells.attaches hallows s).append (.moves _ _ _)
  · rw [heq]
    exact .refuses hnot s

/-- What is opened for a server or a route, unless its arguments are refused. -/
theorem Context.tells_opened (st : BuildState) (wanted : Except Error Section) :
    Tells (plugin :: outer) st (plugin.context.openedEvents st wanted)
      (Outcome.ofStep st (wanted >>= plugin.context.openScope st)).state := by
  cases wanted with
  | error e => exact .nil _ st
  | ok s => exact tells_openScope st s

variable {operation : String} {args : Args}

theorem Frame.tells_attach (st : RunState) (s : Section) :
    Tells (plugin :: outer) st.build (plugin.context.attachEvents st.build s)
      (Outcome.ofStep st.build
        ((plugin.frame operation args).simpleStep st (.attach s))).state := by
  rw [Context.attachEvents, simpleStep, Registered.frame]
  rcases plugin.context.attach_cases st.build s with ⟨scope, hallows, heq⟩ | ⟨hnot, e, heq⟩
  · rw [heq]
    exact .attaches hallows s
  · rw [heq]
    exact .refuses hnot s

theorem Frame.tells_simpleStep (st : RunState) (step : Step) :
    Tells (plugin :: outer) st.build ((plugin.frame operation args).events st step)
      (Outcome.ofStep st.build ((plugin.frame operation args).simpleStep st step)).state := by
  generalize hf : plugin.frame operation args = f
  cases step with
  | attach s =>
      subst hf
      exact tells_attach st s
  | attachArgument name index keys default =>
      subst hf
      exact tells_attach st _
  | openScope s =>
      subst hf
      exact Context.tells_openScope st.build s
  | addRoute args' =>
      subst hf
      rw [simpleStep, Context.addRoute_eq]
      exact Context.tells_opened st.build _
  | descend node =>
      rw [events, simpleStep]
      cases f.resolve st node with
      | ok id => exact .moves _ st.build (.on id)
      | error e => exact .nil _ st.build
  | ascend => exact .moves _ st.build _
  | setOption node key value =>
      rw [events, simpleStep]
      cases f.resolve st node with
      | error e => exact .nil _ st.build
      | ok id =>
          simp only [ok_bind]
          cases hset : st.build.tree.setOption id key value with
          | ok t => exact .sets hset
          | error e => exact .nil _ st.build
  | replyNode node =>
      rw [simpleStep]
      cases f.resolve st node <;> exact .nil _ st.build
  | replyScope node =>
      rw [simpleStep]
      cases f.resolve st node <;> exact .nil _ st.build
  | _ => exact .nil _ st.build

/-- An operation that is run by name is told right, whatever is running. -/
def Chronicle.Tells (chronicle : Chronicle) (callee : Callee) : Prop :=
  ∀ running st operation args,
    Moment.Tells running st (chronicle st operation args) (callee st operation args).state

namespace Step

variable {chronicle : Chronicle} {callee : Callee}

theorem tells_run (h : chronicle.Tells callee) (st : RunState) (step : Step) :
    Tells (plugin :: outer) st.build (step.events chronicle (plugin.frame operation args) st)
      (step.run callee (plugin.frame operation args) st).2.build := by
  induction step with
  | call operation args =>
      rw [run, RunState.build_after]
      exact h (plugin :: outer) st.build operation _
  | attempt step ih =>
      rw [run, events]
      cases hrun : step.run callee (plugin.frame operation args) st with
      | mk result after =>
          rw [hrun] at ih
          cases result <;> exact ih
  | _ =>
      rw [run_simple (by intro _ _ heq; cases heq) (by intro _ heq; cases heq),
        RunState.build_after]
      exact Frame.tells_simpleStep st _

theorem tells_runAll (h : chronicle.Tells callee) (st : RunState) (reply : Reply)
    (steps : List Step) :
    Tells (plugin :: outer) st.build
      (eventsAll chronicle callee (plugin.frame operation args) st steps)
      (runAll callee (plugin.frame operation args) st reply steps).2.build := by
  induction steps generalizing st reply with
  | nil => exact .nil _ st.build
  | cons step rest ih =>
      have hstep : Tells (plugin :: outer) st.build
          (step.events chronicle (plugin.frame operation args) st)
          (step.run callee (plugin.frame operation args) st).2.build := tells_run h st step
      rw [eventsAll, runAll]
      cases hrun : step.run callee (plugin.frame operation args) st with
      | mk result after =>
          rw [hrun] at hstep
          cases result with
          | error e => exact hstep.append (.nil _ after.build)
          | ok own => exact hstep.append (ih after _)

end Step

theorem Operation.tells_run {chronicle : Chronicle} {callee : Callee}
    (h : chronicle.Tells callee) (st : BuildState) (code : Operation) :
    Tells (plugin :: outer) st
      (code.events chronicle callee (plugin.frame operation args) st)
      (code.run callee (plugin.frame operation args) st).state := by
  cases code with
  | addServer =>
      rw [run, Context.addServer_eq]
      exact Context.tells_opened st _
  | addRoute =>
      rw [run, Context.addRoute_eq]
      exact Context.tells_opened st _
  | script steps => exact Step.tells_runAll h ⟨st, none⟩ .unit steps

end Running

/-- A call runs at a smaller depth, on top of what is running. -/
theorem tells_dispatch (r : Registry) (depth : Nat) :
    (dispatchEvents r depth).Tells (dispatch r depth) := by
  induction depth with
  | zero => exact fun running st _ _ => .nil running st
  | succ depth ih =>
      intro running st operation args
      simp only [dispatchEvents, dispatch, dispatchWith]
      cases hnative : native? st operation with
      | some o =>
          simp only
          rcases native?_cases hnative with rfl | hsame
          · exact .moves running st _
          · rw [hsame]
            exact .moves running st st.cursor
      | none =>
          cases r.lookup? operation with
          | none => exact .nil running st
          | some found =>
              obtain ⟨plugin, code⟩ := found
              exact .begins (Operation.tells_run ih st code)

namespace Builder

open Moment

theorem tells_act (b : Builder) (a : Action) :
    Tells [] b.state (b.events a) (b.act a).state := by
  cases a with
  | call operation args => exact tells_dispatch b.registry callDepth [] b.state operation args
  | enter operation args =>
      have hcall := tells_dispatch b.registry callDepth [] b.state operation args
      obtain ⟨cursor, henter⟩ := b.enter_snd operation args
      have hmoves := hcall.append (.moves [] _ cursor)
      rw [events, act, henter]
      exact hmoves
  | leave s => exact .moves [] b.state s.restoreTo
  | up => exact .moves [] b.state _
  | descend id =>
      rw [events, act]
      cases hdescend : b.descend id with
      | error e => exact .moves [] b.state b.state.cursor
      | ok b' =>
          obtain ⟨c, -, heq⟩ := bind_eq_ok.mp hdescend
          obtain rfl := Except.ok.inj heq
          exact .moves [] b.state _
  | setOption id key value =>
      rw [events, act]
      cases hset : b.setOption id key value with
      | error e => exact .nil [] b.state
      | ok b' =>
          obtain ⟨t, ht, heq⟩ := bind_eq_ok.mp hset
          obtain rfl := Except.ok.inj heq
          exact .sets ht

theorem tells_actAll (b : Builder) (actions : List Action) :
    Tells [] b.state (b.eventsAll actions) (b.actAll actions).state := by
  induction actions generalizing b with
  | nil => exact .nil [] b.state
  | cons a rest ih => exact (b.tells_act a).append (ih (b.act a))

end Builder

/-! ## Later trees -/

namespace Tree

/-- No node is taken from its parent, and no container gets another header. -/
structure KeepsPlaces (t t' : Tree) : Prop extends t.Keeps t' where
  parent : ∀ {id p}, t.parent? id = some p → t'.parent? id = some p

namespace KeepsPlaces

theorem refl (t : Tree) : t.KeepsPlaces t :=
  ⟨.refl t, fun h => h⟩

theorem trans {t u v : Tree} (h : t.KeepsPlaces u) (h' : u.KeepsPlaces v) : t.KeepsPlaces v :=
  ⟨h.toKeeps.trans h'.toKeeps, fun hp => h'.parent (h.parent hp)⟩

theorem append (t : Tree) (scope : NodeId) (s : Section) :
    t.KeepsPlaces (t.append scope s).1 where
  toKeeps := .append t scope s
  parent := fun hp => (parent?_append_of_lt (lt_size_of_parent? hp) scope s).trans hp

theorem changeOptions (t : Tree) (id : NodeId) (f : Options → Options) :
    t.KeepsPlaces (t.changeOptions id f) where
  toKeeps := .changeOptions t id f
  parent := fun hp => (parent?_changeOptions t id f _).trans hp

end KeepsPlaces

end Tree

namespace Moment

theorem keepsPlaces_after (m : Moment) (e : Event) :
    m.state.tree.KeepsPlaces (m.after e).state.tree := by
  cases e with
  | attaches s =>
      rw [after]
      cases m.state.cursor.current with
      | none => exact .refl _
      | some scope => exact .append _ scope s
  | sets id key value => exact .changeOptions m.state.tree id (·.insert key value)
  | _ => exact .refl _

theorem keepsPlaces_replay (m : Moment) (log : List Event) :
    m.state.tree.KeepsPlaces (m.replay log).state.tree := by
  induction log generalizing m with
  | nil => exact .refl _
  | cons e rest ih => exact (m.keepsPlaces_after e).trans (ih (m.after e))

/-- What an attachment puts under an allowed scope is under it from then on. -/
theorem parent?_replay_attaches {m : Moment} {allowed : List String} {scope : NodeId}
    (h : m.state.Allows allowed scope) (s : Section) (later : List Event) :
    (m.replay (.attaches s :: later)).state.tree.parent? m.state.tree.size = some scope
      ∧ ∃ c, (m.replay (.attaches s :: later)).state.tree.container? scope = some c
        ∧ c.Fits allowed := by
  obtain ⟨hcurrent, c, hc, hfits⟩ := h
  have hafter : (m.after (.attaches s)).state.tree = (m.state.tree.append scope s).1 := by
    rw [after, hcurrent]
  have hlater : (m.state.tree.append scope s).1.KeepsPlaces
      (m.replay (.attaches s :: later)).state.tree := by
    rw [← hafter]
    exact keepsPlaces_replay (m.after (.attaches s)) later
  refine ⟨hlater.parent (Tree.parent?_append_size _ scope s), ?_⟩
  obtain ⟨c', hc', hheader⟩ :=
    ((Tree.Keeps.append m.state.tree scope s).trans hlater.toKeeps).container hc
  refine ⟨c', hc', ?_⟩
  rw [Container.Fits, Container.keyword?, hheader]
  exact hfits

end Moment

namespace Builder

/-- **Attachments are allowed by the plugin whose operation is running.** The
log of a run makes the run again, and a call, however deep, leaves those
operations running that it found. Every attachment of the run goes where the
plugin allows it whose operation began last and has not ended; the new node is
under that scope in every later tree, and the scope still has a keyword that
the plugin allows. What is refused, the same plugin does not allow. -/
theorem attachments_are_allowed (b : Builder) (actions : List Action) :
    let start : Moment := ⟨b.state, []⟩
    let log := b.eventsAll actions
    start.replay log = ⟨(b.actAll actions).state, []⟩
      ∧ (∀ depth running st operation args,
          (⟨st, running⟩ : Moment).replay (dispatchEvents b.registry depth st operation args) =
            ⟨(dispatch b.registry depth st operation args).state, running⟩)
      ∧ (∀ before s rest, log = before ++ .attaches s :: rest →
          ∃ plugin outer scope, (start.replay before).running = plugin :: outer
            ∧ (start.replay before).state.Allows plugin.validParents scope
            ∧ ∀ later, later <+: rest →
                let t := (start.replay (before ++ .attaches s :: later)).state.tree
                t.parent? (start.replay before).state.tree.size = some scope
                  ∧ ∃ c, t.container? scope = some c ∧ c.Fits plugin.validParents)
      ∧ ∀ before s rest, log = before ++ .refuses s :: rest →
          ∃ plugin outer, (start.replay before).running = plugin :: outer
            ∧ ∀ scope, ¬ (start.replay before).state.Allows plugin.validParents scope := by
  intro start log
  obtain ⟨hreplay, horder⟩ := b.tells_actAll actions
  refine ⟨hreplay, fun depth running st operation args =>
    (tells_dispatch b.registry depth running st operation args).replay_eq, ?_, ?_⟩
  · intro before s rest hlog
    have hsplit : start.InOrder (before ++ .attaches s :: rest) := hlog ▸ horder
    obtain ⟨-, ⟨plugin, outer, scope, hrunning, hallows⟩, -⟩ := Moment.inOrder_append.mp hsplit
    refine ⟨plugin, outer, scope, hrunning, hallows, fun later _ => ?_⟩
    rw [Moment.replay_append]
    exact Moment.parent?_replay_attaches hallows s later
  · intro before s rest hlog
    have hsplit : start.InOrder (before ++ .refuses s :: rest) := hlog ▸ horder
    obtain ⟨-, hrefused, -⟩ := Moment.inOrder_append.mp hsplit
    exact hrefused

end Builder

end NginxConfig
