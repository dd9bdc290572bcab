import NginxConfig.Proofs.Builder.Agreement
import NginxConfig.Proofs.Builder.Attachments

/-!
# Scopes opened by hand

A scope can be entered, and then a guard knows where the cursor was. It can also be
opened by a bare call, and then nobody knows, and closing it means going up to the
parent of wherever the cursor is. For programs in which every scope is closed after
what is inside, the two come to the same (`raw_calls_nest`).

They agree because of what holds at every moment of a bare run (`Nested`): the
scopes that are open stand under one another, the first of them under the node where
the run began, and the cursor is in the latest. A scope is opened under the cursor,
and nothing that happens while it is open gives it another parent, so from each of
them the way up leads to the one before.
-/

namespace NginxConfig

/-! ## Programs -/

/-- An operation that every builder has and that opens a scope. -/
inductive Opening where
  | server
  | route

namespace Opening

def operation : Opening → String
  | .server => "add_server"
  | .route => "add_route"

def code : Opening → Operation
  | .server => .addServer
  | .route => .addRoute

/-- The plugin that comes with the operation. -/
def plugin : Opening → Plugin
  | .server => .server
  | .route => .route

/-- What is attached, unless the arguments are refused. -/
def wanted : Opening → Args → Except Error Section
  | .server => Context.serverSection
  | .route => Context.routeSection

end Opening

/-- A step inside a program that is not about the cursor. -/
inductive Quiet where
  | setOption (id : NodeId) (key : String) (value : Value)
  /-- A call by a name of the builder itself that does not stand for going up. -/
  | native (operation : String) (args : Args) (hnative : operation ∈ nativeOperations)
      (hup : operation ≠ "up") (hend : operation ≠ "end")
  /-- An attempt to open a scope, which has to fail. -/
  | refused (o : Opening) (args : Args)

namespace Quiet

def deed : Quiet → Deed
  | .setOption id key value => .setOption id key value
  | .native operation args _ _ _ => .call operation args
  | .refused o args => .call o.operation args

def HasToFail : Quiet → Prop
  | .refused _ _ => True
  | _ => False

instance : DecidablePred HasToFail
  | .refused _ _ => inferInstanceAs (Decidable True)
  | .setOption _ _ _ | .native _ _ _ _ _ => inferInstanceAs (Decidable False)

/-- Takes the step. There is no result if it has to fail and does not. -/
def run (b : Builder) (q : Quiet) : Option Builder :=
  if q.HasToFail ∧ (b.perform q.deed).2 ≠ .failed then none else some (b.perform q.deed).1

end Quiet

/-- How a scope is closed by hand: by the method, or by a call that stands for it. -/
inductive Closing where
  | method
  | call (operation : String) (args : Args) (h : operation = "up" ∨ operation = "end")

def Closing.deed : Closing → Deed
  | .method => .up
  | .call operation args _ => .call operation args

/-- A step of a program. A scope is given with all that happens while it is open, how
it is closed by hand, and whether its guard is finished or dropped. -/
inductive Task where
  | quiet (q : Quiet)
  | scoped (o : Opening) (args : Args) (body : List Task) (closing : Closing) (finished : Bool)

namespace Task

mutual

/-- Runs a step with guards. There is no result if a scope cannot be opened. -/
def guarded (b : Builder) : Task → Option Builder
  | .quiet q => q.run b
  | .scoped o args body _ finished =>
    match b.enter o.operation args with
    | (.error _, _) => none
    | (.ok scope, inside) =>
      (guardedAll inside body).map fun left =>
        if finished then (Guard.opened scope).finish left else (Guard.opened scope).drop left

def guardedAll (b : Builder) : List Task → Option Builder
  | [] => some b
  | task :: rest => (task.guarded b).bind fun after => guardedAll after rest

end

end Task

/-- What is done by hand, one thing after the other. -/
inductive Move where
  | quiet (q : Quiet)
  | opens (o : Opening) (args : Args)
  | closes (c : Closing)

namespace Task

mutual

def moves : Task → List Move
  | .quiet q => [.quiet q]
  | .scoped o args body closing _ => .opens o args :: (movesAll body ++ [.closes closing])

def movesAll : List Task → List Move
  | [] => []
  | task :: rest => task.moves ++ movesAll rest

end

end Task

/-- A builder that is worked on by hand, and the scopes that have been opened and not
closed, the latest first. -/
structure Bare where
  builder : Builder
  opened : List NodeId

namespace Bare

/-- Makes a move. There is no result if a scope cannot be opened, or there is none to
close. -/
def step (s : Bare) : Move → Option Bare
  | .quiet q => (q.run s.builder).map (⟨·, s.opened⟩)
  | .opens o args =>
    match s.builder.call o.operation args with
    | (.ok (.scope node), after) => some ⟨after, node :: s.opened⟩
    | _ => none
  | .closes c =>
    match s.opened with
    | [] => none
    | _ :: rest => some ⟨(s.builder.perform c.deed).1, rest⟩

def run (s : Bare) (moves : List Move) : Option Bare :=
  moves.foldlM step s

theorem run_append (s : Bare) (moves more : List Move) :
    s.run (moves ++ more) = (s.run moves).bind (·.run more) :=
  List.foldlM_append

end Bare

/-! ## Single steps -/

/-- The two operations are found, with the code that every builder has for them. -/
def Registry.HasOpenings (r : Registry) : Prop :=
  ∀ o : Opening, ∃ plugin, r.lookup? o.operation = some (plugin, o.code)

namespace Opening

theorem not_native (o : Opening) : o.operation ∉ nativeOperations := by
  cases o <;> decide

theorem run_code (o : Opening) (callee : Callee) (f : Frame) (st : BuildState) :
    o.code.run callee f st = .ofStep st (o.wanted f.args >>= f.context.openScope st) := by
  cases o with
  | server => exact congrArg (Outcome.ofStep st) (Context.addServer_eq f.context f.args st)
  | route => exact congrArg (Outcome.ofStep st) (Context.addRoute_eq f.context f.args st)

variable {o : Opening} {b : Builder} {plugin : Registered} {args : Args}

theorem call_eq (hfound : b.registry.lookup? o.operation = some (plugin, o.code)) (args : Args) :
    b.call o.operation args =
      let out := Outcome.ofStep b.state (o.wanted args >>= plugin.context.openScope b.state)
      (out.result, { b with state := out.state }) := by
  simp only [Builder.call_of_lookup? o.not_native hfound, run_code]
  rfl

/-- Nothing happens if the arguments are refused. -/
theorem call_of_error (hfound : b.registry.lookup? o.operation = some (plugin, o.code))
    {e : Error} (hwanted : o.wanted args = .error e) :
    b.call o.operation args = (.error e, b) := by
  rw [call_eq hfound, hwanted]
  rfl

/-- Nothing happens if the plugin can attach nothing at the cursor. -/
theorem call_of_bars (hfound : b.registry.lookup? o.operation = some (plugin, o.code))
    {s : Section} (hwanted : o.wanted args = .ok s) {e : Error}
    (hbars : b.state.Bars plugin.name plugin.validParents e) :
    b.call o.operation args = (.error e, b) := by
  have hattach : plugin.context.attach b.state s = .error e := Context.attach_of_bars hbars s
  rw [call_eq hfound, hwanted, ok_bind, Context.openScope, hattach]
  rfl

/-- Otherwise a scope is opened under the cursor. -/
theorem call_of_allows (hfound : b.registry.lookup? o.operation = some (plugin, o.code))
    {s : Section} (hwanted : o.wanted args = .ok s) {scope : NodeId}
    (hallows : b.state.Allows plugin.validParents scope) :
    b.call o.operation args = (.ok (.scope b.tree.size), b.opened scope s) := by
  have hattach : plugin.context.attach b.state s = _ := Context.attach_of_allows hallows s
  rw [call_eq hfound, hwanted, ok_bind, Context.openScope, hattach]
  rfl

/-- A scope is opened under the cursor, or nothing happens. -/
theorem call_cases (o : Opening) {b : Builder} (h : b.registry.HasOpenings) (args : Args) :
    (∃ e, b.call o.operation args = (.error e, b))
      ∨ ∃ scope s, b.current = some scope
        ∧ b.call o.operation args = (.ok (.scope b.tree.size), b.opened scope s) := by
  obtain ⟨plugin, hfound⟩ := h o
  cases hwanted : o.wanted args with
  | error e => exact Or.inl ⟨e, call_of_error hfound hwanted⟩
  | ok s =>
      rcases b.state.allows_or_bars plugin.name plugin.validParents with
        ⟨scope, hallows⟩ | ⟨e, hbars⟩
      · exact Or.inr ⟨scope, s, hallows.1, call_of_allows hfound hwanted hallows⟩
      · exact Or.inl ⟨e, call_of_bars hfound hwanted hbars⟩

end Opening

/-- A step that is not about the cursor changes the options of a node, if anything. -/
theorem Quiet.run_eq_some {b after : Builder} (h : b.registry.HasOpenings) {q : Quiet}
    (hrun : q.run b = some after) :
    after = b ∨ ∃ id f, after = b.withTree (b.tree.changeOptions id f) := by
  rw [run] at hrun
  split at hrun
  · cases hrun
  · next hfails =>
      obtain rfl := Option.some.inj hrun
      cases q with
      | setOption id key value =>
          rcases b.orSame_cases (b.setOption id key value) with hsame | ⟨after, hok, heq⟩
          · exact Or.inl hsame
          · obtain ⟨t, ht, hafter⟩ := bind_eq_ok.mp hok
            obtain rfl := Tree.changeOptions_of_setOption ht
            exact Or.inr ⟨id, _, heq.trans (Except.ok.inj hafter).symm⟩
      | native operation args hnative hup hend =>
          rcases b.snd_call_of_native hnative args with heq | ⟨hup' | hend', -⟩
          · exact Or.inl heq
          · exact absurd hup' hup
          · exact absurd hend' hend
      | refused o args =>
          rcases o.call_cases h args with ⟨e, heq⟩ | ⟨scope, s, -, heq⟩
          · exact Or.inl (congrArg Prod.snd heq)
          · have hdone : (b.perform (Quiet.refused o args).deed).2 = .done := by
              rw [deed, Builder.perform, heq]
              rfl
            exact absurd ⟨trivial, by rw [hdone]; decide⟩ hfails

theorem Closing.perform_eq (c : Closing) (b : Builder) : (b.perform c.deed).1 = b.up := by
  cases c with
  | method => rfl
  | call operation args h =>
      rcases h with rfl | rfl
      · exact congrArg Prod.snd (Builder.Method.up.call_eq args)
      · exact congrArg Prod.snd (Builder.Method.close.call_eq args)

/-! ## Open scopes -/

/-- Each of the scopes is under the one that was opened before it, and the first of them
under the start. -/
def Tree.Stacked (t : Tree) (start : Option NodeId) : List NodeId → Prop
  | [] => True
  | id :: rest =>
    (∃ parent, t.parent? id = some parent ∧ rest.head?.or start = some parent)
      ∧ t.Stacked start rest

theorem Tree.Stacked.of_keepsPlaces {t t' : Tree} {start : Option NodeId} (h : t.KeepsPlaces t') :
    ∀ {opened : List NodeId}, t.Stacked start opened → t'.Stacked start opened
  | [], _ => trivial
  | _ :: _, ⟨⟨parent, hparent, hnext⟩, hrest⟩ =>
      ⟨⟨parent, h.parent hparent, hnext⟩, hrest.of_keepsPlaces h⟩

/-- The cursor is in the scope that was opened last and is not closed, and from there on
every scope is under the one before. -/
structure Bare.Nested (start : Option NodeId) (s : Bare) : Prop where
  openings : s.builder.registry.HasOpenings
  current_eq : s.builder.current = s.opened.head?.or start
  stacked : s.builder.tree.Stacked start s.opened

namespace Bare.Nested

theorem start {b : Builder} (h : b.registry.HasOpenings) : Nested b.current ⟨b, []⟩ :=
  ⟨h, rfl, trivial⟩

variable {start : Option NodeId} {s s' : Bare}

theorem quiet (h : s.Nested start) {q : Quiet} {after : Builder}
    (hrun : q.run s.builder = some after) : Nested start ⟨after, s.opened⟩ := by
  rcases Quiet.run_eq_some h.openings hrun with rfl | ⟨id, f, rfl⟩
  · exact h
  · exact ⟨h.openings, h.current_eq, h.stacked.of_keepsPlaces (.changeOptions _ id f)⟩

theorem opens (h : s.Nested start) {scope : NodeId} (hcurrent : s.builder.current = some scope)
    (part : Section) :
    Nested start ⟨s.builder.opened scope part, s.builder.tree.size :: s.opened⟩ where
  openings := h.openings
  current_eq := rfl
  stacked :=
    ⟨⟨scope, Tree.parent?_append_size _ scope part, h.current_eq.symm.trans hcurrent⟩,
      h.stacked.of_keepsPlaces (.append _ scope part)⟩

/-- Going up leads from each scope to the one before. -/
theorem closes {b : Builder} {id : NodeId} {rest : List NodeId}
    (h : Nested start ⟨b, id :: rest⟩) : Nested start ⟨b.up, rest⟩ where
  openings := h.openings
  current_eq := by
    obtain ⟨⟨parent, hparent, hnext⟩, -⟩ := h.stacked
    have hcurrent : b.state.cursor.current = some id := h.current_eq
    have hup : b.up.current = b.state.cursor.current.bind b.tree.parent? := rfl
    rw [hup, hcurrent, Option.bind_some, hparent, hnext]
  stacked := h.stacked.2

theorem step (h : s.Nested start) {m : Move} (hstep : s.step m = some s') : s'.Nested start := by
  cases m with
  | quiet q =>
      obtain ⟨after, hrun, rfl⟩ := Option.map_eq_some_iff.mp hstep
      exact h.quiet hrun
  | opens o args =>
      rw [Bare.step] at hstep
      rcases o.call_cases h.openings args with ⟨e, heq⟩ | ⟨scope, part, hcurrent, heq⟩
      · rw [heq] at hstep
        cases hstep
      · rw [heq] at hstep
        exact Option.some.inj hstep ▸ h.opens hcurrent part
  | closes c =>
      obtain ⟨b, opened⟩ := s
      rw [Bare.step] at hstep
      cases opened with
      | nil => cases hstep
      | cons id rest => exact Option.some.inj hstep ▸ c.perform_eq b ▸ h.closes

theorem run (h : s.Nested start) {moves : List Move} (hrun : s.run moves = some s') :
    s'.Nested start := by
  induction moves generalizing s with
  | nil => exact Option.some.inj hrun ▸ h
  | cons m rest ih =>
      rw [Bare.run, List.foldlM_cons, Option.bind_eq_bind, Option.bind_eq_some_iff] at hrun
      obtain ⟨next, hstep, hrest⟩ := hrun
      exact ih (h.step hstep) hrest

/-- When the same scopes are open, the cursor is at the same place. -/
theorem cursor_eq {b b' : Builder} {opened : List NodeId} (h : Nested start ⟨b, opened⟩)
    (h' : Nested start ⟨b', opened⟩) : b'.state.cursor = b.state.cursor :=
  congrArg Cursor.mk (h'.current_eq.trans h.current_eq.symm)

/-- A guard goes back to where going up leads. -/
theorem up_eq_leave {b left : Builder} {id : NodeId} {opened : List NodeId}
    (h : Nested start ⟨b, opened⟩) (hleft : Nested start ⟨left, id :: opened⟩) :
    left.up = left.leave ⟨id, b.state.cursor⟩ := by
  have hcursor : left.up.state.cursor = b.state.cursor := h.cursor_eq hleft.closes
  rw [Builder.leave, ← hcursor]
  rfl

end Bare.Nested

/-! ## Both ways -/

theorem Builder.enter_of_scope {b after : Builder} {operation : String} {args : Args}
    {node : NodeId} (h : b.call operation args = (.ok (.scope node), after)) :
    b.enter operation args = (.ok ⟨node, b.state.cursor⟩, after) := by
  rw [enter, h]

namespace Task

open Bare

variable {start : Option NodeId}

mutual

/-- By hand a step comes to the same as with guards, and leaves open what was open. -/
theorem run_moves {b : Builder} {opened : List NodeId} (h : Nested start ⟨b, opened⟩) :
    ∀ task : Task, (⟨b, opened⟩ : Bare).run task.moves = (task.guarded b).map (⟨·, opened⟩)
  | .quiet q => by
      rw [moves, guarded, Bare.run, List.foldlM_cons]
      exact bind_pure _
  | .scoped o args body closing finished => by
      rw [moves, guarded, Bare.run, List.foldlM_cons, Bare.step]
      rcases o.call_cases h.openings args with ⟨e, heq⟩ | ⟨scope, part, hcurrent, heq⟩
      · -- Where nothing is opened, neither run goes on.
        rw [heq, Builder.enter, heq]
        rfl
      · have hinside := h.opens hcurrent part
        have hbody := run_movesAll hinside body
        rw [heq, Builder.enter_of_scope heq]
        simp only [Option.bind_eq_bind, Option.bind_some]
        rw [← Bare.run, run_append, hbody]
        cases hall : guardedAll (b.opened scope part) body with
        | none => rfl
        | some left =>
            rw [hall] at hbody
            -- The program inside has closed what it opened, so this scope is the latest.
            have hup := h.up_eq_leave (hinside.run hbody)
            simp only [Option.map_some, Option.bind_some, Guard.finish_opened, ite_self]
            rw [Guard.drop, Guard.opened, if_pos rfl, ← hup, ← closing.perform_eq left]
            rfl

theorem run_movesAll {b : Builder} {opened : List NodeId} (h : Nested start ⟨b, opened⟩) :
    ∀ tasks : List Task,
      (⟨b, opened⟩ : Bare).run (movesAll tasks) = (guardedAll b tasks).map (⟨·, opened⟩)
  | [] => rfl
  | task :: rest => by
      have htask := run_moves h task
      rw [movesAll, guardedAll, run_append, htask]
      cases hguarded : task.guarded b with
      | none => rfl
      | some after =>
          rw [hguarded] at htask
          exact run_movesAll (h.run htask) rest

end

end Task

/-! ## The operations that every builder starts with -/

/-- Plugins come in behind those that every builder starts with, and take over none of
their operations. -/
theorem Sessions.lookup?_opening (id : BuilderId) (settings : Settings) (turns : List Turn)
    (o : Opening) :
    ((start id settings).turnAll turns).builder.registry.lookup? o.operation =
      some (⟨.ofBuilder id, o.plugin⟩, o.code) := by
  have hkept := registry_induction (s := start id settings)
    (P := fun r => r.Merged ∧ ∀ q ∈ (Registry.initial id).plugins, q ∈ r.plugins)
    (fun hnone h => ⟨h.1.record (h.1.consistent.rejection?_eq_none.mp hnone),
      fun q hq => Array.mem_push.mpr (Or.inl (h.2 q hq))⟩)
    ⟨.initial id, fun _ hq => hq⟩ turns
  have hmem : (⟨.ofBuilder id, o.plugin⟩ : Registered) ∈ (Registry.initial id).plugins := by
    rw [Registry.mem_initial]
    cases o with
    | server => exact Or.inr rfl
    | route => exact Or.inl rfl
  refine hkept.1.consistent.lookup?_eq_some.mpr ⟨hkept.2 _ hmem, ?_⟩
  cases o <;> rfl

theorem Sessions.hasOpenings_turnAll (id : BuilderId) (settings : Settings) (turns : List Turn) :
    ((start id settings).turnAll turns).builder.registry.HasOpenings :=
  fun o => ⟨_, lookup?_opening id settings turns o⟩

/-- **Scopes can be opened by hand.** Take a builder that can be made, in any state, and a
program of scopes in scopes and of steps that are not about the cursor. With bare calls,
one to open each scope and one to close it, it comes to the same builder as with guards,
or fails as it does with guards; no scope is left open, and the cursor is where it was.
At every moment of a bare run the cursor is in the scope that was opened last and is not
closed, and where it was in the beginning if there is none. -/
theorem raw_calls_nest (id : BuilderId) (settings : Settings) (turns : List Turn)
    (st : BuildState) (tasks : List Task) :
    let b := { ((Sessions.start id settings).turnAll turns).builder with state := st }
    (⟨b, []⟩ : Bare).run (Task.movesAll tasks) = (Task.guardedAll b tasks).map (⟨·, []⟩)
      ∧ (∀ after, Task.guardedAll b tasks = some after → after.state.cursor = b.state.cursor)
      ∧ ∀ moves s, (⟨b, []⟩ : Bare).run moves = some s →
          s.builder.current = s.opened.head?.or b.current := by
  intro b
  have h : Bare.Nested b.current ⟨b, []⟩ :=
    .start (Sessions.hasOpenings_turnAll id settings turns)
  have hrun := Task.run_movesAll h tasks
  refine ⟨hrun, fun after hafter => ?_, fun moves s hs => (h.run hs).current_eq⟩
  rw [hafter] at hrun
  exact h.cursor_eq (h.run hrun)

/-- A server with a route in it, from where no other server can be opened. -/
example :
    (Task.guardedAll (Builder.new 0 {})
      [.scoped .server .none
        [.scoped .route ⟨[.str "/"], ∅⟩ [.quiet (.refused .server .none)] .method true]
        .method false]).map (fun b => (b.tree.size, b.current)) = some (6, some 3) := by
  decide

end NginxConfig
