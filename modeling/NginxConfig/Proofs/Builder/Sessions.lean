import NginxConfig.Proofs.Builder.Failure
import NginxConfig.Proofs.Tree.Edits

/-!
# Sessions

Whoever enters a scope gets a guard, and works with the builder through it until
the guard is released: at the end of the session, or because the guard is
dropped, which happens also when the work is abandoned halfway. All sessions on
a builder share one cursor, and nothing keeps the work inside a session from
moving it, or from moving the nodes that it points at.

A program is therefore run here with the stack of the guards that are open. It
always leaves the stack as it found it (`guards_runAll`), however its sessions
come to an end, so the guard that is released last is the one that was opened
first, and that is the one that knows where the cursor was
(`session_restores_cursor`).

Without a guard nobody knows. `enter` puts the cursor back itself where an
operation opens no scope, but the error of an operation that fails is passed on
before that, and it can be the very error that `enter` gives
(`cursor_of_enter_eq_error`).
-/

namespace NginxConfig

/-! ## Guards -/

/-- A scope that was entered and has to be left. The guard holds the builder
until it has given it back. -/
structure Guard where
  scope : Scope
  holds : Bool

namespace Guard

def opened (s : Scope) : Guard := ⟨s, true⟩

/-- A guard that has given the builder back does nothing more. -/
def drop (g : Guard) (b : Builder) : Builder :=
  if g.holds then b.leave g.scope else b

/-- Gives the builder back. What remains of the guard is dropped. -/
def finish (g : Guard) (b : Builder) : Builder :=
  { g with holds := false }.drop (b.leave g.scope)

/-- The two ways to release a guard come to the same. -/
theorem finish_opened (s : Scope) (b : Builder) : (opened s).finish b = (opened s).drop b := rfl

end Guard

/-! ## Programs -/

/-- What can be done through a guard. -/
inductive Deed where
  /-- Operations that open a scope can be called as well; nobody closes it. -/
  | call (operation : String) (args : Args)
  | up
  | descend (id : NodeId)
  | setOption (id : NodeId) (key : String) (value : Value)
  | register (p : Instance)
  /-- Any edit of the tree, whether or not a guard or the cursor is about the
  nodes that it moves. -/
  | edit (e : Edit)

inductive Command where
  | deed (d : Deed)
  /-- Enters a scope, runs a program through the guard, and finishes the session
  or drops the guard. -/
  | session (operation : String) (args : Args) (body : List Command) (finished : Bool)
  /-- Gives up if the command fails. -/
  | insist (command : Command)
  /-- Gives up, as an early return or a panic does. -/
  | abandon
  /-- Keeps a program that gives up from taking with it what is around. -/
  | rescue (body : List Command)

/-- How a program goes on after a command. -/
inductive Flow where
  | done
  | failed
  | abandoned
  deriving DecidableEq

namespace Flow

def ofResult {α : Type} : Except Error α → Flow
  | .ok _ => .done
  | .error _ => .failed

def insisted : Flow → Flow
  | .failed => .abandoned
  | flow => flow

def rescued : Flow → Flow
  | .abandoned => .failed
  | flow => flow

/-- Only a session that is abandoned shows on the outside. -/
def outside : Flow → Flow
  | .abandoned => .abandoned
  | _ => .done

end Flow

namespace Builder

/-- The builder that a call makes, or the same one if it fails. -/
def orSame (b : Builder) (result : Except Error Builder) : Builder × Flow :=
  (result.toOption.getD b, .ofResult result)

def perform (b : Builder) : Deed → Builder × Flow
  | .call operation args =>
    let (result, after) := b.call operation args
    (after, .ofResult result)
  | .up => (b.up, .done)
  | .descend id => b.orSame (b.descend id)
  | .setOption id key value => b.orSame (b.setOption id key value)
  | .register p => b.orSame ((b.register p).map Prod.fst)
  | .edit e => b.orSame ((e.apply b.tree).map b.withTree)

end Builder

/-- A builder, and the guards that are open on it, the latest first. -/
structure Sessions where
  builder : Builder
  guards : List Guard

namespace Sessions

/-- A guard for a scope that was entered. -/
def opened (s : Sessions) (b : Builder) (scope : Scope) : Sessions :=
  ⟨b, .opened scope :: s.guards⟩

/-- Releases the latest guard. -/
def release (s : Sessions) (finished : Bool) : Sessions :=
  match s.guards with
  | [] => s
  | g :: rest => ⟨if finished then g.finish s.builder else g.drop s.builder, rest⟩

mutual

def run (s : Sessions) : Command → Sessions × Flow
  | .deed d =>
    let (b, flow) := s.builder.perform d
    (⟨b, s.guards⟩, flow)
  | .session operation args body finished =>
    match s.builder.enter operation args with
    | (.error _, b) => (⟨b, s.guards⟩, .failed)
    | (.ok scope, b) =>
      let (inner, flow) := (s.opened b scope).runAll body
      -- Where the work is abandoned, the guard is dropped on the way out.
      (inner.release (finished && flow ≠ .abandoned), flow.outside)
  | .insist command =>
    let (after, flow) := s.run command
    (after, flow.insisted)
  | .abandon => (s, .abandoned)
  | .rescue body =>
    let (after, flow) := s.runAll body
    (after, flow.rescued)

def runAll (s : Sessions) : List Command → Sessions × Flow
  | [] => (s, .done)
  | command :: rest =>
    match s.run command with
    | (after, .abandoned) => (after, .abandoned)
    | (after, _) => after.runAll rest

end

/-! ## The stack of guards -/

theorem release_of_opened {s : Sessions} {scope : Scope} {guards : List Guard}
    (h : s.guards = .opened scope :: guards) (finished : Bool) :
    s.release finished = ⟨s.builder.leave scope, guards⟩ := by
  rw [release, h]
  cases finished <;> rfl

mutual

/-- A command opens and releases guards of its own only. -/
theorem guards_run (s : Sessions) : ∀ c : Command, (s.run c).1.guards = s.guards
  | .deed d => by rw [run]
  | .session operation args body finished => by
      rw [run]
      split
      · rfl
      · next scope b _ =>
          have hbody : ((s.opened b scope).runAll body).1.guards = .opened scope :: s.guards :=
            guards_runAll (s.opened b scope) body
          simp only [release_of_opened hbody]
  | .insist command => by
      rw [run]
      exact guards_run s command
  | .abandon => by rw [run]
  | .rescue body => by
      rw [run]
      exact guards_runAll s body

theorem guards_runAll (s : Sessions) : ∀ body : List Command, (s.runAll body).1.guards = s.guards
  | [] => by rw [runAll]
  | command :: rest => by
      have hcommand := guards_run s command
      rw [runAll]
      split
      · next after hrun =>
          rw [hrun] at hcommand
          exact hcommand
      · next after _ _ hrun =>
          rw [hrun] at hcommand
          exact (guards_runAll after rest).trans hcommand

end

end Sessions

/-! ## What operations answer -/

/-- The kinds of errors that the builder gives when it refuses a step. -/
def Error.OfStep : Error → Prop
  | .invalidParent .. | .invalidArguments .. | .unknownNode _ | .notAContainer _ => True
  | _ => False

/-- A step that fails with one of these errors if it fails. -/
def FailsAsStep {α : Type} (x : Except Error α) : Prop :=
  ∀ e, x = .error e → e.OfStep

namespace FailsAsStep

variable {α β : Type}

theorem ok (a : α) : FailsAsStep (.ok a) := fun _ h => nomatch h

theorem error {e : Error} (h : e.OfStep) : FailsAsStep (α := α) (.error e) :=
  fun _ heq => Except.error.inj heq ▸ h

theorem bind {x : Except Error α} {f : α → Except Error β} (hx : FailsAsStep x)
    (hf : ∀ a, FailsAsStep (f a)) : FailsAsStep (x >>= f) := by
  intro e h
  rcases bind_eq_error.mp h with hfirst | ⟨a, -, hnext⟩
  · exact hx e hfirst
  · exact hf a e hnext

theorem container (t : Tree) (id : NodeId) : FailsAsStep (t.container id) := by
  rw [Tree.container]
  split
  · exact ok _
  · exact error trivial
  · exact error trivial

theorem setOption (t : Tree) (id : NodeId) (key : String) (value : Value) :
    FailsAsStep (t.setOption id key value) :=
  (container t id).bind fun _ => ok _

theorem attachAt (cursor : Cursor) (t : Tree) (s : Section) (plugin : String)
    (allowed : List String) : FailsAsStep (cursor.attach t s plugin allowed) := by
  rw [Cursor.attach]
  split
  · exact error trivial
  · refine (container t _).bind fun scope => ?_
    simp only
    split
    · exact (container t _).bind fun _ => ok _
    · exact error trivial

theorem attach (ctx : Context) (st : BuildState) (s : Section) :
    FailsAsStep (ctx.attach st s) :=
  (attachAt _ _ _ _ _).bind fun _ => ok _

theorem openScope (ctx : Context) (st : BuildState) (s : Section) :
    FailsAsStep (ctx.openScope st s) :=
  (attach ctx st s).bind fun _ => ok _

theorem single (args : Args) (operation : String) (index : Nat) (keys : List String) :
    FailsAsStep (args.single operation index keys) := by
  rw [Args.single]
  split
  · exact ok _
  · exact ok _
  · exact error trivial

theorem addServer (ctx : Context) (args : Args) (st : BuildState) :
    FailsAsStep (ctx.addServer args st) :=
  ((single args _ _ _).bind fun _ => ok _).bind fun _ => openScope ctx st _

theorem addRoute (ctx : Context) (args : Args) (st : BuildState) :
    FailsAsStep (ctx.addRoute args st) := by
  refine (single args _ _ _).bind fun given => ?_
  split
  · exact error trivial
  · exact openScope ctx st _

theorem resolve (f : Frame) (st : RunState) (node : NodeRef) :
    FailsAsStep (f.resolve st node) := by
  rw [Frame.resolve.eq_def]
  repeat' split
  all_goals first | exact ok _ | exact error trivial

/-- A step that raises an error can give any. -/
theorem simpleStep (f : Frame) (st : RunState) {step : Step}
    (h : ∀ e catchable, step ≠ .raise e catchable) : FailsAsStep (f.simpleStep st step) := by
  cases step with
  | attach s => exact (attach _ _ _).bind fun _ => ok _
  | attachArgument name index keys default => exact (attach _ _ _).bind fun _ => ok _
  | openScope s => exact openScope _ _ _
  | addRoute args => exact addRoute _ _ _
  | descend node => exact (resolve f st node).bind fun _ => ok _
  | setOption node key value =>
      exact (resolve f st node).bind fun id => (setOption _ id key value).bind fun _ => ok _
  | replyNode node => exact (resolve f st node).bind fun _ => ok _
  | replyScope node => exact (resolve f st node).bind fun _ => ok _
  | fail reason => exact error trivial
  | raise e catchable => exact absurd rfl (h e catchable)
  | _ => exact ok _

end FailsAsStep

theorem Outcome.failsAsStep_ofStep {st : BuildState} {x : Except Error (BuildState × Reply)}
    (h : FailsAsStep x) : FailsAsStep (Outcome.ofStep st x).result := by
  cases x with
  | ok r => exact .ok _
  | error e => exact .error (h e rfl)

theorem failsAsStep_native? {st : BuildState} {operation : String} {o : Outcome}
    (h : native? st operation = some o) : FailsAsStep o.result := by
  rw [native?] at h
  repeat' split at h
  all_goals cases h
  all_goals first | exact .ok _ | exact .error trivial

/-- A script that can be called raises the error itself, and not in an attempt. -/
def Registry.Throws (r : Registry) (e : Error) : Prop :=
  ∃ operation plugin steps catchable, r.RunsScript operation plugin steps
    ∧ Step.raise e catchable ∈ steps

/-- What a call can fail with. Where no operation is found, the error tells which one
was looked for, however deep the call was. -/
inductive Registry.Raises (r : Registry) : Error → Prop
  | step {e : Error} (h : e.OfStep) : r.Raises e
  | thrown {e : Error} (h : r.Throws e) : r.Raises e
  | callDepth (operation : String) : r.Raises (.callDepth operation)
  | noSuchOperation {operation : String} (hnative : operation ∉ nativeOperations)
      (hfound : r.lookup? operation = none) :
      r.Raises (.noSuchOperation operation r.operationNames)

/-- A call gives no error but those of the builder and those that scripts raise. -/
theorem Stops.raises {r : Registry} {depth : Nat} {st st' : BuildState} {operation : String}
    {args : Args} {e : Error} (h : Stops r depth st operation args e st') : r.Raises e := by
  induction h with
  | @whole depth st operation args e hscript hresult =>
      cases depth with
      | zero => exact Except.error.inj hresult ▸ .callDepth operation
      | succ depth =>
          have hnot := hscript.resolve_left (Nat.succ_ne_zero depth)
          rw [dispatch, dispatchWith] at hresult
          split at hresult
          · next o hnative => exact .step (failsAsStep_native? hnative e hresult)
          · next hnative =>
              split at hresult
              · next hfound =>
                  exact Except.error.inj hresult ▸
                    .noSuchOperation (native?_eq_none.mp hnative) hfound
              · next plugin code hfound =>
                  cases code with
                  | addServer =>
                      exact .step (Outcome.failsAsStep_ofStep (.addServer _ _ _) e hresult)
                  | addRoute =>
                      exact .step (Outcome.failsAsStep_ofStep (.addRoute _ _ _) e hresult)
                  | script steps =>
                      exact absurd ⟨native?_eq_none.mp hnative, hfound⟩ (hnot plugin steps)
  | @step depth st operation args e plugin before after step reply reached hscript _ hpasses _
      hstep =>
      by_cases hraise : ∃ e' catchable, step.core = .raise e' catchable
      · obtain ⟨e', catchable, hcore⟩ := hraise
        rw [hcore] at hstep
        obtain rfl := Except.error.inj hstep
        -- An attempt would have held the error back, so the step is the raise itself.
        rw [Step.core_of_passes hpasses catchable] at hcore
        have hmem : step ∈ before ++ step :: after := List.mem_append_right before List.mem_cons_self
        exact .thrown ⟨operation, plugin, _, catchable, hscript, hcore ▸ hmem⟩
      · have hnot : ∀ e' catchable, step.core ≠ .raise e' catchable := fun e' catchable hcore =>
          hraise ⟨e', catchable, hcore⟩
        exact .step (FailsAsStep.simpleStep _ _ hnot e hstep)
  | call _ _ _ _ _ ih => exact ih

namespace Builder

variable {b b' : Builder} {operation : String} {args : Args}

/-- Where no scope was entered, the cursor is put back unless the operation itself has
failed. -/
theorem cursor_of_enter_eq_error {e : Error} (h : b.enter operation args = (.error e, b')) :
    b'.state.cursor = b.state.cursor ↔
      ∀ st, Stops b.registry callDepth b.state operation args e st →
        st.cursor = b.state.cursor := by
  rcases enter_eq_error h with hcall | ⟨-, reply, after, hcall, rfl⟩
  · obtain ⟨stopped, hstops, rfl⟩ := call_eq_error_iff.mp hcall
    refine ⟨fun hcursor st hst => ?_, fun hback => hback stopped hstops⟩
    have hagain := (call_eq_error_iff.mpr ⟨st, hst, rfl⟩).symm.trans hcall
    obtain rfl : st = stopped := congrArg Builder.state (Prod.mk.inj hagain).2
    exact hcursor
  · refine ⟨fun _ st hst => ?_, fun _ => rfl⟩
    have hfailed := (call_eq_error_iff.mpr ⟨st, hst, rfl⟩).symm.trans hcall
    cases (Prod.mk.inj hfailed).1

/-- As long as no script raises this error, only `enter` gives it, and then it puts the
cursor back. -/
theorem cursor_of_notAScope {name : String} (hown : ¬ b.registry.Throws (.notAScope name))
    (h : b.enter operation args = (.error (.notAScope name), b')) :
    b'.state.cursor = b.state.cursor := by
  refine (cursor_of_enter_eq_error h).mpr fun st hstops => ?_
  cases hstops.raises with
  | step h => exact h.elim
  | thrown h => exact absurd h hown

end Builder

namespace Sessions

/-- **A session leaves the cursor where it was.** Whatever is done through the
guard, and whatever becomes of the nodes that the cursor was at and went to, the
builder after the session is the one that the program inside left, with the
cursor of before; the guards around the session are untouched. It does not
matter how the session ends. If there is no session for want of a scope, the
cursor is where it was exactly if the operation has answered, or has failed with
the cursor there; so it is unless a script raises the error that otherwise only
`enter` gives. -/
theorem session_restores_cursor (s : Sessions) (operation : String) (args : Args)
    (body : List Command) (finished : Bool) :
    match s.builder.enter operation args with
    | (.ok scope, inside) =>
        let left := ((s.opened inside scope).runAll body).1
        left.guards = .opened scope :: s.guards
          ∧ (Guard.opened scope).finish left.builder = (Guard.opened scope).drop left.builder
          ∧ (s.run (.session operation args body finished)).1 =
              ⟨left.builder.withCursor s.builder.state.cursor, s.guards⟩
    | (.error e, after) =>
        (s.run (.session operation args body finished)).1 = ⟨after, s.guards⟩
          ∧ ∀ name, e = .notAScope name →
              (after.state.cursor = s.builder.state.cursor ↔
                ∀ st, Stops s.builder.registry Builder.callDepth s.builder.state operation args e st →
                  st.cursor = s.builder.state.cursor)
              ∧ (¬ s.builder.registry.Throws e →
                  after.state.cursor = s.builder.state.cursor) := by
  split
  · next scope inside henter =>
      have hguards : ((s.opened inside scope).runAll body).1.guards = .opened scope :: s.guards :=
        guards_runAll (s.opened inside scope) body
      refine ⟨hguards, Guard.finish_opened scope _, ?_⟩
      rw [run, henter]
      simp only [release_of_opened hguards]
      rw [Builder.leave, (Builder.enter_eq_ok henter).2]
  · next e after henter =>
      refine ⟨?_, fun name hname => ?_⟩
      · rw [run, henter]
      · subst hname
        exact ⟨Builder.cursor_of_enter_eq_error henter,
          fun hown => Builder.cursor_of_notAScope hown henter⟩

/-- A plugin that goes up and then raises the error that `enter` gives. -/
def climber : Plugin :=
  ⟨"climber", .ofList [("climb", .script [.ascend, .raise (.notAScope "climb") rfl])], []⟩

def withClimber : Builder :=
  { Builder.new 0 {} with registry := (Builder.new 0 {}).registry.record (.pooled 0) climber }

/-- The error is passed on before the cursor is put back. -/
theorem not_cursor_of_notAScope :
    (Builder.new 0 {}).register ⟨.pooled 0, climber, none⟩ =
        .ok (withClimber, ⟨.pooled 0, climber, some 0⟩)
      ∧ withClimber.current = some 3
      ∧ (withClimber.enter "climb" .none).1 = .error (.notAScope "climb")
      ∧ (withClimber.enter "climb" .none).2.current = some 0 :=
  ⟨rfl, rfl, rfl, rfl⟩

end Sessions

end NginxConfig
