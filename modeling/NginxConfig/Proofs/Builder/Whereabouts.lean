import NginxConfig.Proofs.Builder.Attachments
import NginxConfig.Proofs.Builder.Turns
import NginxConfig.Proofs.Tree.Building

/-!
# Where the cursor is

A cursor is meant to be at a scope, or nowhere. The builder itself sees to that:
it looks at a node before it goes there, the parent of a node is a container, and
a container that a guard goes back to is still one then, because no node is ever
turned into another. A script is trusted. It can go to any node, and it can open
a directive as if that were a scope.

So the scripts have to mind where they go (`Step.Minds`), each step in the state
that it is run in. If they do, the cursor is at a scope or nowhere after whatever
is done with the builder, and so are the places that the open guards go back to
(`cursor_stays_on_scopes`). An operation that answers with what it opened last
then answers with a container that the cursor is at.
-/

namespace NginxConfig

/-! ## Cursors on scopes -/

/-- The cursor is at a container, or nowhere. -/
def Cursor.OnScope (c : Cursor) (t : Tree) : Prop :=
  ∀ id, c.current = some id → t.HasContainer id

theorem Cursor.OnScope.of_keeps {c : Cursor} {t t' : Tree} (h : c.OnScope t) (hk : t.Keeps t') :
    c.OnScope t' :=
  fun id hid => hk.hasContainer (h id hid)

theorem Cursor.OnScope.on {t : Tree} {id : NodeId} (h : t.HasContainer id) :
    (Cursor.on id).OnScope t :=
  fun _ heq => Option.some.inj heq ▸ h

/-- Who is listed in a container has it as the parent, so that the cursor can go up. -/
theorem Cursor.OnScope.ascend {t : Tree} (h : t.Linked) (c : Cursor) : (c.ascend t).OnScope t := by
  intro parent hparent
  obtain ⟨id, -, hp⟩ := Option.bind_eq_some_iff.mp hparent
  exact h.hasContainer hp

namespace BuildState

structure Placed (st : BuildState) : Prop where
  linked : st.tree.Linked
  onScope : st.cursor.OnScope st.tree

/-- What can become of a build when nobody goes to a directive. -/
structure Advances (st st' : BuildState) : Prop where
  keeps : st.tree.Keeps st'.tree
  placed : st.Placed → st'.Placed

namespace Advances

theorem refl (st : BuildState) : st.Advances st :=
  ⟨.refl _, fun h => h⟩

theorem trans {st st' st'' : BuildState} (h : st.Advances st') (h' : st'.Advances st'') :
    st.Advances st'' :=
  ⟨h.keeps.trans h'.keeps, fun hst => h'.placed (h.placed hst)⟩

/-- The tree changes, and the cursor stays. -/
theorem withTree {st : BuildState} {t : Tree} (hkeeps : st.tree.Keeps t)
    (hlinked : st.tree.Linked → t.Linked) : st.Advances { st with tree := t } :=
  ⟨hkeeps, fun h => ⟨hlinked h.linked, h.onScope.of_keeps hkeeps⟩⟩

/-- The cursor moves, and the tree stays. -/
theorem withCursor {st : BuildState} {cursor : Cursor}
    (h : st.Placed → cursor.OnScope st.tree) : st.Advances { st with cursor } :=
  ⟨.refl _, fun hst => ⟨hst.linked, h hst⟩⟩

theorem ascend (st : BuildState) : st.Advances st.ascend :=
  withCursor fun h => .ascend h.linked _

theorem descend {st : BuildState} {id : NodeId} (h : st.tree.HasContainer id) :
    st.Advances (st.descend id) :=
  withCursor fun _ => .on h

theorem append {st : BuildState} {scope : NodeId} (h : st.tree.HasContainer scope) (s : Section) :
    st.Advances { st with tree := (st.tree.append scope s).1 } :=
  withTree (.append st.tree scope s) fun hlinked => hlinked.append h s

theorem setOption {st : BuildState} {t : Tree} {id : NodeId} {key : String} {value : Value}
    (h : st.tree.setOption id key value = .ok t) : st.Advances { st with tree := t } := by
  obtain rfl := Tree.changeOptions_of_setOption h
  exact withTree (.changeOptions _ _ _) fun hlinked => hlinked.changeOptions _ _

theorem edit (st : BuildState) (e : Edit) : st.Advances { st with tree := st.tree.edit e } :=
  withTree (st.tree.keeps_edit e) fun hlinked => hlinked.edit e

end Advances

/-- Every builder starts in the `http` block. -/
theorem placed_initialState (settings : Settings) : (Builder.initialState settings).Placed := by
  rw [Blueprint.initialState_eq]
  exact ⟨Tree.Shape.linked_trunk _ _ _, .on ⟨_, rfl⟩⟩

end BuildState

/-! ## Scripts that mind where they go -/

/-- The section is a container, which is what a scope has to be. -/
def Section.IsScope : Section → Prop
  | .container .. => True
  | .directive _ => False

/-- When an operation that is run by name minds where it goes. -/
abbrev Caution := BuildState → String → Args → Prop

namespace Step

/-- A step that puts the cursor at a scope, if it puts it anywhere. To go up is
always safe, and so are the ways in which servers and routes are opened. -/
def Minds (caution : Caution) (f : Frame) (st : RunState) : Step → Prop
  | .openScope s => s.IsScope
  | .descend node => ∀ id, f.resolve st node = .ok id → st.build.tree.HasContainer id
  | .call operation args => caution st.build operation (f.argsOf args)
  | .attempt step => step.Minds caution f st
  | _ => True

/-- Every step of a script minds, up to the one that fails. -/
def MindsAll (caution : Caution) (callee : Callee) (f : Frame) (st : RunState) : List Step → Prop
  | [] => True
  | step :: rest =>
    step.Minds caution f st ∧
      match step.run callee f st with
      | (.ok _, st) => MindsAll caution callee f st rest
      | (.error _, _) => True

end Step

def Operation.Minds (caution : Caution) (callee : Callee) (f : Frame) (st : BuildState) :
    Operation → Prop
  | .addServer | .addRoute => True
  | .script steps => Step.MindsAll caution callee f ⟨st, none⟩ steps

/-- Every script minds that a call comes to, which may nest to the given depth. -/
def dispatchMinds (r : Registry) : Nat → Caution
  | 0 => fun _ _ _ => True
  | depth + 1 => fun st operation args =>
    ∀ plugin code, operation ∉ nativeOperations → r.lookup? operation = some (plugin, code) →
      code.Minds (dispatchMinds r depth) (dispatch r depth) (plugin.frame operation args) st

theorem dispatchMinds_of_lookup? {r : Registry} {depth : Nat} {st : BuildState}
    {operation : String} {args : Args} {plugin : Registered} {code : Operation}
    (hfound : r.lookup? operation = some (plugin, code))
    (h : code.Minds (dispatchMinds r depth) (dispatch r depth) (plugin.frame operation args) st) :
    dispatchMinds r (depth + 1) st operation args := by
  intro plugin' code' _ hfound'
  obtain ⟨rfl, rfl⟩ := Prod.mk.inj (Option.some.inj (hfound.symm.trans hfound'))
  exact h

/-! ## One step -/

theorem Outcome.advances_ofStep {st : BuildState} {x : Except Error (BuildState × Reply)}
    (h : ∀ {r}, x = .ok r → st.Advances r.1) : st.Advances (Outcome.ofStep st x).state := by
  cases x with
  | ok r => exact h rfl
  | error e => exact .refl st

namespace Context

variable {ctx : Context} {st : BuildState} {s : Section}

theorem attach_eq_ok {r : BuildState × NodeId} (h : ctx.attach st s = .ok r) :
    ∃ scope, st.tree.HasContainer scope
      ∧ r = ({ st with tree := (st.tree.append scope s).1 }, st.tree.size) := by
  rcases ctx.attach_cases st s with ⟨scope, hallows, heq⟩ | ⟨-, e, heq⟩
  · exact ⟨scope, hallows.hasContainer, Except.ok.inj (h.symm.trans heq)⟩
  · rw [heq] at h
    cases h

theorem advances_attach {r : BuildState × NodeId} (h : ctx.attach st s = .ok r) :
    st.Advances r.1 := by
  obtain ⟨scope, hscope, rfl⟩ := attach_eq_ok h
  exact .append hscope s

theorem advances_openScope (hs : s.IsScope) {r : BuildState × Reply}
    (h : ctx.openScope st s = .ok r) : st.Advances r.1 := by
  obtain ⟨opened, hattach, h⟩ := bind_eq_ok.mp h
  obtain rfl := Except.ok.inj h
  obtain ⟨scope, hscope, rfl⟩ := attach_eq_ok hattach
  cases s with
  | directive d => cases hs
  | container header options sections =>
      exact (BuildState.Advances.append hscope _).trans
        (.descend (Tree.hasContainer_append hscope header options sections))

theorem isScope_serverSection {args : Args} (h : serverSection args = .ok s) : s.IsScope := by
  obtain ⟨hostname, -, h⟩ := bind_eq_ok.mp h
  obtain rfl := Except.ok.inj h
  trivial

theorem isScope_routeSection {args : Args} (h : routeSection args = .ok s) : s.IsScope := by
  obtain ⟨given, -, h⟩ := bind_eq_ok.mp h
  split at h
  · cases h
  · obtain rfl := Except.ok.inj h
    trivial

theorem advances_addServer {args : Args} {r : BuildState × Reply}
    (h : ctx.addServer args st = .ok r) : st.Advances r.1 := by
  rw [addServer_eq] at h
  obtain ⟨s, hs, h⟩ := bind_eq_ok.mp h
  exact advances_openScope (isScope_serverSection hs) h

theorem advances_addRoute {args : Args} {r : BuildState × Reply}
    (h : ctx.addRoute args st = .ok r) : st.Advances r.1 := by
  rw [addRoute_eq] at h
  obtain ⟨s, hs, h⟩ := bind_eq_ok.mp h
  exact advances_openScope (isScope_routeSection hs) h

end Context

theorem Frame.advances_simpleStep {caution : Caution} {f : Frame} {st : RunState} {step : Step}
    (h : step.Minds caution f st) {r : BuildState × Reply} (hs : f.simpleStep st step = .ok r) :
    st.build.Advances r.1 := by
  cases step with
  | attach s =>
      obtain ⟨attached, hattach, hs⟩ := bind_eq_ok.mp hs
      obtain rfl := Except.ok.inj hs
      exact Context.advances_attach hattach
  | attachArgument name index keys default =>
      obtain ⟨attached, hattach, hs⟩ := bind_eq_ok.mp hs
      obtain rfl := Except.ok.inj hs
      exact Context.advances_attach hattach
  | openScope s => exact Context.advances_openScope h hs
  | addRoute args => exact Context.advances_addRoute hs
  | descend node =>
      obtain ⟨id, hid, hs⟩ := bind_eq_ok.mp hs
      obtain rfl := Except.ok.inj hs
      exact .descend (h id hid)
  | ascend =>
      obtain rfl := Except.ok.inj hs
      exact .ascend _
  | setOption node key value =>
      obtain ⟨id, -, hs⟩ := bind_eq_ok.mp hs
      obtain ⟨t, ht, hs⟩ := bind_eq_ok.mp hs
      obtain rfl := Except.ok.inj hs
      exact .setOption ht
  | replyNode node =>
      obtain ⟨id, -, hs⟩ := bind_eq_ok.mp hs
      obtain rfl := Except.ok.inj hs
      exact .refl _
  | replyScope node =>
      obtain ⟨id, -, hs⟩ := bind_eq_ok.mp hs
      obtain rfl := Except.ok.inj hs
      exact .refl _
  | fail reason => cases hs
  | raise e _ => cases hs
  | _ =>
      obtain rfl := Except.ok.inj hs
      exact .refl _

/-! ## From steps to calls -/

/-- Caution is enough for what an operation does that is run by name. -/
def Caution.Suffices (caution : Caution) (callee : Callee) : Prop :=
  ∀ {st operation args}, caution st operation args → st.Advances (callee st operation args).state

namespace Step

variable {caution : Caution} {callee : Callee} {f : Frame}

theorem advances_run (hc : caution.Suffices callee) {st : RunState} {step : Step}
    (h : step.Minds caution f st) : st.build.Advances (step.run callee f st).2.build := by
  induction step with
  | call operation args =>
      rw [run, RunState.build_after]
      exact hc h
  | attempt step ih =>
      rw [run]
      cases hrun : step.run callee f st with
      | mk result after =>
          have hinner := ih h
          rw [hrun] at hinner
          cases result <;> exact hinner
  | _ =>
      rw [run_simple (by intro _ _ heq; cases heq) (by intro _ heq; cases heq),
        RunState.build_after]
      exact Outcome.advances_ofStep (Frame.advances_simpleStep h)

theorem advances_runAll (hc : caution.Suffices callee) {st : RunState} {steps : List Step}
    (h : MindsAll caution callee f st steps) (reply : Reply) :
    st.build.Advances (runAll callee f st reply steps).2.build := by
  induction steps generalizing st reply with
  | nil => exact .refl _
  | cons step rest ih =>
      obtain ⟨hminds, hrest⟩ := h
      have hstep := advances_run hc hminds
      rw [runAll]
      cases hrun : step.run callee f st with
      | mk result after =>
          rw [hrun] at hstep hrest
          cases result with
          | error e => exact hstep
          | ok own => exact hstep.trans (ih hrest _)

end Step

theorem Operation.advances_run {caution : Caution} {callee : Callee} {f : Frame} {st : BuildState}
    (hc : caution.Suffices callee) {code : Operation} (h : code.Minds caution callee f st) :
    st.Advances (code.run callee f st).state := by
  cases code with
  | addServer => exact Outcome.advances_ofStep Context.advances_addServer
  | addRoute => exact Outcome.advances_ofStep Context.advances_addRoute
  | script steps => exact Step.advances_runAll hc h .unit

/-- A call runs at a smaller depth, with the same care. -/
theorem dispatchMinds_suffices (r : Registry) (depth : Nat) :
    Caution.Suffices (dispatchMinds r depth) (dispatch r depth) := by
  induction depth with
  | zero => exact fun _ => .refl _
  | succ depth ih =>
      intro st operation args h
      rw [dispatch, dispatchWith]
      cases hnative : native? st operation with
      | some o =>
          rcases native?_cases hnative with rfl | hsame
          · exact .ascend st
          · exact hsame ▸ .refl st
      | none =>
          cases hfound : r.lookup? operation with
          | none => exact .refl st
          | some found =>
              obtain ⟨plugin, code⟩ := found
              exact Operation.advances_run ih (h plugin code (native?_eq_none.mp hnative) hfound)

/-! ## What was opened last -/

/-- The operation ends by opening something, itself or in an operation that it
calls, and answers with that. -/
inductive Registry.OpensLast (r : Registry) : String → Prop
  | server {operation : String} {plugin : Registered} (hnative : operation ∉ nativeOperations)
      (hfound : r.lookup? operation = some (plugin, .addServer)) : r.OpensLast operation
  | route {operation : String} {plugin : Registered} (hnative : operation ∉ nativeOperations)
      (hfound : r.lookup? operation = some (plugin, .addRoute)) : r.OpensLast operation
  | script {operation : String} {plugin : Registered} {before : List Step} {step : Step}
      (hscript : r.RunsScript operation plugin (before ++ [step]))
      (hstep : (∃ s, step = .openScope s) ∨ ∃ args, step = .addRoute args) :
      r.OpensLast operation
  | call {operation inner : String} {plugin : Registered} {before : List Step} {args : ArgsRef}
      (hscript : r.RunsScript operation plugin (before ++ [.call inner args]))
      (hinner : r.OpensLast inner) : r.OpensLast operation

/-- The answer is a scope, and the cursor is at it. -/
def Outcome.AtScope (o : Outcome) : Prop :=
  ∃ node, o.result = .ok (.scope node) ∧ o.state.cursor = .on node

namespace Context

variable {ctx : Context} {args : Args} {st : BuildState} {r : BuildState × Reply}

theorem atScope_openScope {s : Section} (h : ctx.openScope st s = .ok r) :
    (Outcome.ofStep st (.ok r)).AtScope := by
  obtain ⟨opened, -, h⟩ := bind_eq_ok.mp h
  obtain rfl := Except.ok.inj h
  exact ⟨opened.2, rfl, rfl⟩

theorem atScope_addServer (h : ctx.addServer args st = .ok r) :
    (Outcome.ofStep st (.ok r)).AtScope := by
  rw [addServer_eq] at h
  obtain ⟨s, -, h⟩ := bind_eq_ok.mp h
  exact atScope_openScope h

theorem atScope_addRoute (h : ctx.addRoute args st = .ok r) :
    (Outcome.ofStep st (.ok r)).AtScope := by
  rw [addRoute_eq] at h
  obtain ⟨s, -, h⟩ := bind_eq_ok.mp h
  exact atScope_openScope h

end Context

theorem Outcome.atScope_ofStep {st : BuildState} {x : Except Error (BuildState × Reply)}
    (h : ∀ {r}, x = .ok r → (Outcome.ofStep st (.ok r)).AtScope) {reply : Reply}
    (hok : (Outcome.ofStep st x).result = .ok reply) : (Outcome.ofStep st x).AtScope := by
  cases x with
  | ok r => exact h rfl
  | error e => cases hok

/-- A script that gets as far as its last step answers with it. -/
theorem Step.runAll_concat_eq_ok {callee : Callee} {f : Frame} {st st' : RunState} {step : Step}
    {before : List Step} {first reply : Reply}
    (h : runAll callee f st first (before ++ [step]) = (.ok reply, st')) :
    ∃ reached reply' own, step.run callee f reached = (.ok own, st')
      ∧ reply = own.getD reply' := by
  induction before generalizing st first with
  | nil =>
      rw [List.nil_append, runAll] at h
      cases hrun : step.run callee f st with
      | mk result after =>
          rw [hrun] at h
          cases result with
          | error e => cases h
          | ok own =>
              obtain ⟨hreply, rfl⟩ := Prod.mk.inj h
              exact ⟨st, first, own, hrun, (Except.ok.inj hreply).symm⟩
  | cons head rest ih =>
      rw [List.cons_append, runAll] at h
      cases hrun : head.run callee f st with
      | mk result after =>
          rw [hrun] at h
          cases result with
          | error e => cases h
          | ok own => exact ih h

theorem Step.atScope_after {st st' : RunState} {o : Outcome} {own : Option Reply}
    (ho : ∀ {reply}, o.result = .ok reply → o.AtScope) (h : st.after o = (.ok own, st'))
    (reply : Reply) : ∃ node, own.getD reply = .scope node ∧ st'.build.cursor = .on node := by
  rw [RunState.after] at h
  cases hresult : o.result with
  | error e =>
      rw [hresult] at h
      cases h
  | ok reply' =>
      rw [hresult] at h
      obtain ⟨hown, rfl⟩ := Prod.mk.inj h
      obtain rfl := Except.ok.inj hown
      obtain ⟨node, hnode, hcursor⟩ := ho hresult
      obtain rfl := Except.ok.inj (hresult.symm.trans hnode)
      exact ⟨node, rfl, hcursor⟩

section Dispatch

variable {r : Registry} {depth : Nat} {st : BuildState} {operation : String} {args : Args}
  {reply : Reply}

/-- A script is at a scope in the end, if its last step always is when it succeeds. -/
theorem atScope_dispatch_script {plugin : Registered} {before : List Step} {step : Step}
    (hscript : r.RunsScript operation plugin (before ++ [step]))
    (hstep : ∀ {reached st' own},
      step.run (dispatch r depth) (plugin.frame operation args) reached = (.ok own, st') →
        ∀ reply', ∃ node, own.getD reply' = .scope node ∧ st'.build.cursor = .on node)
    (hok : (dispatch r (depth + 1) st operation args).result = .ok reply) :
    (dispatch r (depth + 1) st operation args).AtScope := by
  rw [dispatch_of_lookup? hscript.not_native hscript.exported, Operation.run] at hok ⊢
  cases hrun : Step.runAll (dispatch r depth) (plugin.frame operation args) ⟨st, none⟩ .unit
    (before ++ [step]) with
  | mk result st' =>
      rw [hrun] at hok
      obtain rfl : result = .ok reply := hok
      obtain ⟨reached, reply', own, hlast, rfl⟩ := Step.runAll_concat_eq_ok hrun
      obtain ⟨node, hnode, hcursor⟩ := hstep hlast reply'
      exact ⟨node, congrArg Except.ok hnode, hcursor⟩

theorem Registry.OpensLast.atScope (h : r.OpensLast operation)
    (hok : (dispatch r depth st operation args).result = .ok reply) :
    (dispatch r depth st operation args).AtScope := by
  induction h generalizing depth st args reply with
  | server hnative hfound =>
      cases depth with
      | zero => cases hok
      | succ depth =>
          rw [dispatch_of_lookup? hnative hfound] at hok ⊢
          exact Outcome.atScope_ofStep Context.atScope_addServer hok
  | route hnative hfound =>
      cases depth with
      | zero => cases hok
      | succ depth =>
          rw [dispatch_of_lookup? hnative hfound] at hok ⊢
          exact Outcome.atScope_ofStep Context.atScope_addRoute hok
  | script hscript hstep =>
      cases depth with
      | zero => cases hok
      | succ depth =>
          refine atScope_dispatch_script hscript (fun hrun => ?_) hok
          rcases hstep with ⟨s, rfl⟩ | ⟨args', rfl⟩
          · exact Step.atScope_after (Outcome.atScope_ofStep Context.atScope_openScope) hrun
          · exact Step.atScope_after (Outcome.atScope_ofStep Context.atScope_addRoute) hrun
  | call hscript hinner ih =>
      cases depth with
      | zero => cases hok
      | succ depth =>
          exact atScope_dispatch_script hscript (fun hrun => Step.atScope_after ih hrun) hok

end Dispatch

/-! ## Working with a builder -/

namespace Builder

/-- Every script that the call comes to minds where it goes. -/
def CallMinds (b : Builder) (operation : String) (args : Args) : Prop :=
  dispatchMinds b.registry callDepth b.state operation args

theorem advances_call {b : Builder} {operation : String} {args : Args}
    (h : b.CallMinds operation args) : b.state.Advances (b.call operation args).2.state :=
  dispatchMinds_suffices b.registry callDepth h

end Builder

/-- What is done with the builder calls for no care, unless it is a call. -/
def Deed.Minds (b : Builder) : Deed → Prop
  | .call operation args => b.CallMinds operation args
  | _ => True

def Turn.Minds (b : Builder) : Turn → Prop
  | .deed d => d.Minds b
  | .enter operation args => b.CallMinds operation args
  | _ => True

theorem Builder.advances_perform {b : Builder} {d : Deed} (h : d.Minds b) :
    b.state.Advances (b.perform d).1.state := by
  rcases b.perform_cases d with heq | ⟨operation, args, rfl, heq⟩ | heq | ⟨id, hid, heq⟩ |
    ⟨e, heq⟩ | ⟨p, -, heq⟩
  · rw [heq]; exact .refl b.state
  · rw [heq]; exact advances_call h
  · rw [heq]; exact .ascend b.state
  · rw [heq]; exact .descend hid
  · rw [heq]; exact .edit b.state e
  · rw [heq]; exact .refl b.state

namespace Sessions

/-- The cursor is on a scope, and so are the places that open guards go back to. -/
structure Placed (s : Sessions) : Prop where
  builder : s.builder.state.Placed
  guards : ∀ g ∈ s.guards, g.scope.restoreTo.OnScope s.builder.tree

/-- Every turn minds, in the state that it is taken in. -/
def Minds (s : Sessions) : List Turn → Prop
  | [] => True
  | t :: rest => t.Minds s.builder ∧ (s.turn t).Minds rest

namespace Placed

theorem start (id : BuilderId) (settings : Settings) : (start id settings).Placed :=
  ⟨BuildState.placed_initialState settings, fun _ hg => absurd hg List.not_mem_nil⟩

variable {s : Sessions}

/-- Guards go back to containers of the tree, which stay what they are. -/
theorem advance (h : s.Placed) {b : Builder} (hb : s.builder.state.Advances b.state) :
    (⟨b, s.guards⟩ : Sessions).Placed :=
  ⟨hb.placed h.builder, fun g hg => (h.guards g hg).of_keeps hb.keeps⟩

theorem enter (h : s.Placed) {operation : String} {args : Args}
    (hminds : s.builder.CallMinds operation args) : (s.turn (.enter operation args)).Placed := by
  have hcall := Builder.advances_call hminds
  rw [Sessions.turn]
  cases henter : s.builder.enter operation args with
  | mk result b =>
      cases result with
      | ok scope =>
          obtain ⟨hopened, hrestore⟩ := Builder.enter_eq_ok henter
          rw [hopened] at hcall
          refine ⟨hcall.placed h.builder, fun g hg => ?_⟩
          rcases List.mem_cons.mp hg with rfl | hg
          · exact hrestore ▸ h.builder.onScope.of_keeps hcall.keeps
          · exact (h.guards g hg).of_keeps hcall.keeps
      | error e =>
          rcases Builder.enter_eq_error henter with hfailed | ⟨-, reply, after, hother, rfl⟩
          · rw [hfailed] at hcall
            exact h.advance hcall
          · rw [hother] at hcall
            exact h.advance (hcall.trans
              (.withCursor fun _ => h.builder.onScope.of_keeps hcall.keeps))

theorem release (h : s.Placed) (finished : Bool) : (s.release finished).Placed := by
  rcases s.release_cases finished with hsame | ⟨g, rest, hguards, hleave⟩
  · rw [hsame]
    exact h
  · have hrest : ∀ g ∈ rest, g.scope.restoreTo.OnScope s.builder.tree := fun g' hg' =>
      h.guards g' (hguards ▸ List.mem_cons_of_mem g hg')
    rcases hleave with hleave | hleave
    · exact hleave ▸ ⟨h.builder, hrest⟩
    · have hg : g.scope.restoreTo.OnScope s.builder.tree :=
        h.guards g (hguards ▸ List.mem_cons_self)
      exact hleave ▸ ⟨⟨h.builder.linked, hg⟩, hrest⟩

/-- The step of every run. -/
theorem turn (h : s.Placed) {t : Turn} (hminds : t.Minds s.builder) : (s.turn t).Placed := by
  cases t with
  | deed d => exact h.advance (Builder.advances_perform hminds)
  | enter operation args => exact h.enter hminds
  | release finished => exact h.release finished
  | forget => exact ⟨h.builder, fun g hg => h.guards g (List.mem_of_mem_tail hg)⟩

theorem turnAll (h : s.Placed) {turns : List Turn} (hminds : s.Minds turns) :
    (s.turnAll turns).Placed := by
  induction turns generalizing s with
  | nil => exact h
  | cons t rest ih => exact ih (h.turn hminds.1) hminds.2

end Placed

/-- **The cursor is at a container or nowhere**, and every open guard goes back to
such a place, whatever has been done with a builder and whatever plugins it has been
told of, as long as their scripts mind where they go. An operation that ends by
opening something, and succeeds, answers with a container, and has left the cursor
there. -/
theorem cursor_stays_on_scopes (id : BuilderId) (settings : Settings) (turns : List Turn)
    (hminds : (start id settings).Minds turns) :
    let s := (start id settings).turnAll turns
    (∀ node, s.builder.current = some node → s.builder.tree.HasContainer node)
      ∧ (∀ g ∈ s.guards, ∀ node, g.scope.restoreTo.current = some node →
          s.builder.tree.HasContainer node)
      ∧ ∀ operation args reply after, s.builder.registry.OpensLast operation →
          s.builder.CallMinds operation args →
          s.builder.call operation args = (.ok reply, after) →
            ∃ node, reply = .scope node ∧ after.current = some node
              ∧ after.tree.HasContainer node := by
  intro s
  have h : s.Placed := (Placed.start id settings).turnAll hminds
  refine ⟨h.builder.onScope, h.guards, fun operation args reply after hopens hcare hcall => ?_⟩
  obtain ⟨hresult, rfl⟩ := Prod.mk.inj hcall
  obtain ⟨node, hscope, hcursor⟩ := hopens.atScope hresult
  have hplaced := (Builder.advances_call hcare).placed h.builder
  have hcurrent : (s.builder.call operation args).2.current = some node :=
    congrArg Cursor.current hcursor
  exact ⟨node, Except.ok.inj (hresult.symm.trans hscope), hcurrent, hplaced.onScope node hcurrent⟩

/-! ## Two plugins -/

/-- A plugin that goes to the `http` block and opens an `upstream` block there. -/
def upstreamPlugin : Plugin :=
  ⟨"upstream",
    .ofList [("add_upstream", .script [.descend .top, .openScope (.block "upstream")])],
    ["http"]⟩

/-- The second block is opened from within a server. -/
def upstreamTurns : List Turn :=
  [.deed (.register ⟨.pooled 0, upstreamPlugin, none⟩), .deed (.call "add_server" .none),
    .enter "add_upstream" .none]

theorem cursor_stays_on_scopes_upstream :
    let s := (start 0 {}).turnAll upstreamTurns
    (start 0 {}).Minds upstreamTurns
      ∧ (s.builder.current = some 5 ∧ s.builder.tree.HasContainer 5)
      ∧ (s.guards.map fun g => g.scope.restoreTo.current) = [some 4]
      ∧ s.builder.registry.OpensLast "add_upstream"
      ∧ s.builder.CallMinds "add_upstream" .none
      ∧ ∃ node, Reply.scope 6 = .scope node
        ∧ (s.builder.call "add_upstream" .none).2.current = some node
        ∧ (s.builder.call "add_upstream" .none).2.tree.HasContainer node := by
  intro s
  have hcare : ∀ b : Builder, b.registry = s.builder.registry → b.state.roots = ⟨1, 2, 3⟩ →
      b.tree.HasContainer 3 → b.CallMinds "add_upstream" .none := by
    intro b hregistry hroots hhttp
    rw [Builder.CallMinds, hregistry]
    refine dispatchMinds_of_lookup? rfl ⟨fun id hid => ?_, ?_⟩
    · rw [Frame.resolve, hroots] at hid
      exact Except.ok.inj hid ▸ hhttp
    · exact ⟨trivial, by split <;> trivial⟩
  have hminds : (start 0 {}).Minds upstreamTurns :=
    ⟨trivial, dispatchMinds_of_lookup? rfl trivial, hcare _ rfl rfl ⟨_, rfl⟩, trivial⟩
  have hscript : s.builder.registry.RunsScript "add_upstream" ⟨.pooled 0, upstreamPlugin⟩
      ([.descend .top] ++ [.openScope (.block "upstream")]) := ⟨by decide, rfl⟩
  have hopens : s.builder.registry.OpensLast "add_upstream" := .script hscript (Or.inl ⟨_, rfl⟩)
  have hagain : s.builder.CallMinds "add_upstream" .none := hcare _ rfl rfl ⟨_, rfl⟩
  obtain ⟨honscope, -, hanswer⟩ := cursor_stays_on_scopes 0 {} upstreamTurns hminds
  exact ⟨hminds, ⟨rfl, honscope 5 rfl⟩, rfl, hopens, hagain,
    hanswer "add_upstream" .none (.scope 6) _ hopens hagain rfl⟩

/-- A plugin whose scripts go to a directive. -/
def leafPlugin : Plugin :=
  ⟨"leaf",
    .ofList
      [("jump", .script [.attach (.directive (.bare "internal")), .descend .last]),
        ("plant", .script [.openScope (.directive (.bare "internal"))])],
    []⟩

def withLeafPlugin : Builder :=
  { Builder.new 0 {} with registry := (Builder.new 0 {}).registry.record (.pooled 0) leafPlugin }

/-- The cursor is left at a directive, to which the builder itself does not go, and
which is answered as a scope. -/
theorem not_cursor_on_scope :
    (start 0 {}).turnAll [.deed (.register ⟨.pooled 0, leafPlugin, none⟩)] = ⟨withLeafPlugin, []⟩
      ∧ (withLeafPlugin.call "plant" .none).1 = .ok (.scope 4)
      ∧ (withLeafPlugin.call "plant" .none).2.current = some 4
      ∧ (withLeafPlugin.call "plant" .none).2.descend 4 = .error (.notAContainer 4)
      ∧ (withLeafPlugin.call "jump" .none).1 = .ok .unit
      ∧ (withLeafPlugin.call "jump" .none).2.current = some 4
      ∧ (withLeafPlugin.call "jump" .none).2.descend 4 = .error (.notAContainer 4) :=
  ⟨rfl, rfl, rfl, rfl, rfl, rfl, rfl⟩

end Sessions

end NginxConfig
