import NginxConfig.Builder
import NginxConfig.Proofs.Fallible

/-!
# Where a failed operation stops

A single change of a build is all or nothing. An operation that makes several
of them is not: when a step fails, what the steps before it have done stays.
`Stops` says how far a failed operation has come, down to the one step that was
refused, in the operation itself or in one that it calls. The relation is exact
(`dispatch_eq_error_iff`).

From this follows which operations leave no trace when they fail: those of the
builder, those that come with the library, and all that change nothing before
their last step (`Stops.eq_of_checksFirst`).
-/

namespace NginxConfig

/-! ## One step -/

namespace Step

/-- The step inside of all attempts. -/
def core : Step → Step
  | .attempt step => step.core
  | step => step

/-- Whether an error gets out of the step. An attempt holds back all that are
not fatal. -/
def Passes (e : Error) : Step → Prop
  | .attempt _ => e.isFatal = true
  | _ => True

theorem core_ne_attempt (step inner : Step) : step.core ≠ .attempt inner := by
  induction step with
  | attempt step ih => exact ih
  | _ => exact fun h => nomatch h

theorem core_of_passes {e : Error} {step : Step} (h : step.Passes e) (he : e.isFatal = false) :
    step.core = step := by
  cases step with
  | attempt inner => exact Bool.noConfusion (he.symm.trans h)
  | _ => rfl

theorem passes_of_isFatal {e : Error} (h : e.isFatal = true) (step : Step) : step.Passes e := by
  cases step with
  | attempt step => exact h
  | _ => trivial

variable {callee : Callee} {f : Frame} {st st' : RunState} {e : Error}

theorem run_attempt_eq_error {step : Step} :
    (Step.attempt step).run callee f st = (.error e, st') ↔
      e.isFatal = true ∧ step.run callee f st = (.error e, st') := by
  rw [run]
  cases h : step.run callee f st with
  | mk result after =>
      cases result with
      | ok own => simp
      | error e' =>
          simp only [Prod.mk.injEq, Except.error.injEq]
          cases hf : e'.isFatal with
          | true =>
              simp only [if_true, Except.error.injEq]
              constructor
              · rintro ⟨rfl, rfl⟩
                exact ⟨hf, rfl, rfl⟩
              · rintro ⟨-, rfl, rfl⟩
                exact ⟨rfl, rfl⟩
          | false =>
              constructor
              · rintro ⟨h, -⟩
                cases h
              · rintro ⟨he, rfl, -⟩
                rw [hf] at he
                cases he

/-- Attempts are in the way of an error and nothing more. -/
theorem run_eq_error_iff_core {step : Step} :
    step.run callee f st = (.error e, st') ↔
      step.Passes e ∧ step.core.run callee f st = (.error e, st') := by
  induction step with
  | attempt step ih =>
      rw [run_attempt_eq_error, ih, core]
      constructor
      · rintro ⟨hfatal, -, hrun⟩
        exact ⟨hfatal, hrun⟩
      · rintro ⟨hfatal, hrun⟩
        exact ⟨hfatal, passes_of_isFatal hfatal step, hrun⟩
  | _ => exact (true_and _).symm ▸ Iff.rfl

theorem run_simple {step : Step} (hcall : ∀ operation args, step ≠ .call operation args)
    (hattempt : ∀ inner, step ≠ .attempt inner) :
    step.run callee f st = st.after (.ofStep st.build (f.simpleStep st step)) := by
  cases step with
  | call operation args => exact absurd rfl (hcall operation args)
  | attempt inner => exact absurd rfl (hattempt inner)
  | _ => rfl

end Step

theorem RunState.after_eq_error {st st' : RunState} {o : Outcome} {e : Error} :
    st.after o = (.error e, st') ↔ o = ⟨.error e, st'.build⟩ ∧ st'.last = st.last := by
  obtain ⟨result, state⟩ := o
  obtain ⟨build, last⟩ := st'
  rw [RunState.after]
  cases result with
  | ok reply => simp
  | error e' =>
      simp only [Prod.mk.injEq, Except.error.injEq, RunState.mk.injEq, Outcome.mk.injEq]
      constructor
      · rintro ⟨rfl, rfl, rfl⟩
        exact ⟨⟨rfl, rfl⟩, rfl⟩
      · rintro ⟨⟨rfl, rfl⟩, rfl⟩
        exact ⟨rfl, rfl, rfl⟩

theorem Outcome.ofStep_eq_error {st st' : BuildState} {x : Except Error (BuildState × Reply)}
    {e : Error} : Outcome.ofStep st x = ⟨.error e, st'⟩ ↔ x = .error e ∧ st' = st := by
  cases x with
  | ok r => simp [ofStep]
  | error e' =>
      simp only [ofStep, Outcome.mk.injEq, Except.error.injEq]
      exact and_congr Iff.rfl eq_comm

namespace Step

variable {callee : Callee} {f : Frame} {st st' : RunState} {e : Error}

/-- A step fails as a whole, or in the operation that it calls. -/
theorem run_eq_error {step : Step} :
    step.run callee f st = (.error e, st') ↔
      step.Passes e ∧
        (((∀ operation args, step.core ≠ .call operation args)
            ∧ f.simpleStep st step.core = .error e ∧ st' = st)
          ∨ ∃ operation args, step.core = .call operation args
            ∧ callee st.build operation (f.argsOf args) = ⟨.error e, st'.build⟩
            ∧ st'.last = st.last) := by
  rw [run_eq_error_iff_core]
  refine and_congr Iff.rfl ?_
  by_cases hcall : ∃ operation args, step.core = .call operation args
  · obtain ⟨operation, args, hcore⟩ := hcall
    rw [hcore, run, RunState.after_eq_error]
    constructor
    · rintro ⟨hout, hlast⟩
      exact Or.inr ⟨operation, args, rfl, hout, hlast⟩
    · rintro (⟨hnot, -⟩ | ⟨operation', args', heq, hout, hlast⟩)
      · exact absurd rfl (hnot operation args)
      · cases heq
        exact ⟨hout, hlast⟩
  · have hnot : ∀ operation args, step.core ≠ .call operation args := fun operation args heq =>
      hcall ⟨operation, args, heq⟩
    rw [run_simple hnot (core_ne_attempt step), RunState.after_eq_error, Outcome.ofStep_eq_error]
    constructor
    · rintro ⟨⟨hs, hbuild⟩, hlast⟩
      have hsame : st' = st := by
        obtain ⟨build, last⟩ := st'
        rw [show build = st.build from hbuild, show last = st.last from hlast]
      exact Or.inl ⟨hnot, hs, hsame⟩
    · rintro (⟨-, hs, rfl⟩ | ⟨operation, args, heq, -⟩)
      · exact ⟨⟨hs, rfl⟩, rfl⟩
      · exact absurd heq (hnot operation args)

/-- A script fails where one of its steps does, once all before it are done. -/
theorem runAll_eq_error {steps : List Step} {reply : Reply} :
    runAll callee f st reply steps = (.error e, st') ↔
      ∃ before step after reply' reached, steps = before ++ step :: after
        ∧ runAll callee f st reply before = (.ok reply', reached)
        ∧ step.run callee f reached = (.error e, st') := by
  induction steps generalizing st reply with
  | nil => simp [runAll]
  | cons first rest ih =>
      rw [runAll]
      cases hfirst : first.run callee f st with
      | mk result next =>
          cases result with
          | error e' =>
              simp only
              constructor
              · intro h
                obtain ⟨he, rfl⟩ := Prod.mk.inj h
                rw [Except.error.inj he] at hfirst
                exact ⟨[], first, rest, reply, st, rfl, rfl, hfirst⟩
              · rintro ⟨before, step, after, reply', reached, hsteps, hbefore, hstep⟩
                cases before with
                | nil =>
                    obtain ⟨rfl, rfl⟩ := List.cons.inj hsteps
                    obtain ⟨-, rfl⟩ := Prod.mk.inj hbefore
                    rw [hfirst] at hstep
                    obtain ⟨he, rfl⟩ := Prod.mk.inj hstep
                    rw [Except.error.inj he]
                | cons first' before =>
                    obtain ⟨rfl, rfl⟩ := List.cons.inj hsteps
                    rw [runAll, hfirst] at hbefore
                    cases hbefore
          | ok own =>
              simp only
              rw [ih]
              constructor
              · rintro ⟨before, step, after, reply', reached, rfl, hbefore, hstep⟩
                exact ⟨first :: before, step, after, reply', reached, rfl,
                  by rw [runAll, hfirst]; exact hbefore, hstep⟩
              · rintro ⟨before, step, after, reply', reached, hsteps, hbefore, hstep⟩
                cases before with
                | nil =>
                    obtain ⟨rfl, rfl⟩ := List.cons.inj hsteps
                    obtain ⟨-, rfl⟩ := Prod.mk.inj hbefore
                    rw [hfirst] at hstep
                    cases hstep
                | cons first' before =>
                    obtain ⟨rfl, rfl⟩ := List.cons.inj hsteps
                    rw [runAll, hfirst] at hbefore
                    exact ⟨before, step, after, reply', reached, rfl, hbefore, hstep⟩

end Step

/-! ## Operations of the builder -/

theorem native?_eq_none {st : BuildState} {operation : String} :
    native? st operation = none ↔ operation ∉ nativeOperations := by
  constructor
  · intro h hmem
    have hlast : nativeOperations.contains operation = true := List.contains_iff_mem.mpr hmem
    rw [native?, hlast] at h
    repeat' split at h
    all_goals cases h
    next hnot => exact hnot rfl
  · intro h
    have hne : ∀ name ∈ nativeOperations, operation ≠ name := fun name hn heq => h (heq ▸ hn)
    have hlast : nativeOperations.contains operation = false := by
      rw [← Bool.not_eq_true, List.contains_iff_mem]
      exact h
    simp only [native?, hne "end" (by decide), hne "up" (by decide), hne "render" (by decide),
      hne "top" (by decide), hne "http" (by decide), hne "globals" (by decide),
      hne "events" (by decide), hne "current" (by decide), hlast, or_self, if_false]
    rfl

/-- The builder's own operations go up or leave everything as it is. -/
theorem native?_cases {st : BuildState} {operation : String} {o : Outcome}
    (h : native? st operation = some o) : o = ⟨.ok .unit, st.ascend⟩ ∨ o.state = st := by
  rw [native?] at h
  split at h
  · exact Or.inl (Option.some.inj h).symm
  · refine Or.inr ?_
    repeat' split at h
    all_goals cases h <;> rfl

/-! ## Scripts -/

/-- The operation is a script of a plugin, and not hidden by one of the builder. -/
structure Registry.RunsScript (r : Registry) (operation : String) (plugin : Registered)
    (steps : List Step) : Prop where
  not_native : operation ∉ nativeOperations
  exported : r.lookup? operation = some (plugin, .script steps)

/-- What a script of the plugin knows when it runs. -/
def Registered.frame (plugin : Registered) (operation : String) (args : Args) : Frame :=
  ⟨plugin.context, operation, args⟩

section Dispatch

variable {r : Registry} {depth : Nat} {st st' : BuildState} {operation : String} {args : Args}
  {e : Error}

/-- An operation of a plugin that is not hidden by one of the builder. -/
theorem dispatch_of_lookup? {plugin : Registered} {code : Operation}
    (hnative : operation ∉ nativeOperations) (hfound : r.lookup? operation = some (plugin, code)) :
    dispatch r (depth + 1) st operation args =
      code.run (dispatch r depth) (plugin.frame operation args) st := by
  rw [dispatch, dispatchWith, native?_eq_none.mpr hnative, hfound]
  rfl

theorem dispatch_script_eq_error {plugin : Registered} {steps : List Step}
    (h : r.RunsScript operation plugin steps) :
    dispatch r (depth + 1) st operation args = ⟨.error e, st'⟩ ↔
      ∃ stopped, Step.runAll (dispatch r depth) (plugin.frame operation args) ⟨st, none⟩ .unit
        steps = (.error e, stopped) ∧ stopped.build = st' := by
  rw [dispatch_of_lookup? h.not_native h.exported, Operation.run]
  cases Step.runAll (dispatch r depth) (plugin.frame operation args) ⟨st, none⟩ .unit steps with
  | mk result stopped => simp [and_assoc]

/-- Whatever is not a script fails without a trace. -/
theorem state_of_dispatch_error (h : dispatch r depth st operation args = ⟨.error e, st'⟩)
    (hscript : depth = 0 ∨ ∀ plugin steps, ¬ r.RunsScript operation plugin steps) : st' = st := by
  cases depth with
  | zero => exact (Outcome.mk.inj h).2.symm
  | succ depth =>
      have hnot := hscript.resolve_left (Nat.succ_ne_zero depth)
      rw [dispatch, dispatchWith] at h
      cases hn : native? st operation with
      | some o =>
          rw [hn] at h
          rcases native?_cases hn with rfl | hst
          · cases h
          · rw [← hst, show o = _ from h]
      | none =>
          rw [hn] at h
          cases hl : r.lookup? operation with
          | none =>
              rw [hl] at h
              exact (Outcome.mk.inj h).2.symm
          | some found =>
              obtain ⟨plugin, code⟩ := found
              rw [hl] at h
              cases code with
              | addServer => exact (Outcome.ofStep_eq_error.mp h).2
              | addRoute => exact (Outcome.ofStep_eq_error.mp h).2
              | script steps => exact absurd ⟨native?_eq_none.mp hn, hl⟩ (hnot plugin steps)

end Dispatch

/-! ## Where a failure comes from -/

/-- How far an operation has come when it fails: every step before the one that
is refused has been done, and that one has changed nothing. -/
inductive Stops (r : Registry) : Nat → BuildState → String → Args → Error → BuildState → Prop
  /-- The operation is refused as a whole. -/
  | whole {depth : Nat} {st : BuildState} {operation : String} {args : Args} {e : Error}
      (hscript : depth = 0 ∨ ∀ plugin steps, ¬ r.RunsScript operation plugin steps)
      (hresult : (dispatch r depth st operation args).result = .error e) :
      Stops r depth st operation args e st
  /-- A step of its script is refused. -/
  | step {depth : Nat} {st : BuildState} {operation : String} {args : Args} {e : Error}
      {plugin : Registered} {before after : List Step} {step : Step} {reply : Reply}
      {reached : RunState} (hscript : r.RunsScript operation plugin (before ++ step :: after))
      (hbefore : Step.runAll (dispatch r depth) (plugin.frame operation args) ⟨st, none⟩ .unit
        before = (.ok reply, reached))
      (hpasses : step.Passes e) (hcall : ∀ inner args', step.core ≠ .call inner args')
      (hstep : (plugin.frame operation args).simpleStep reached step.core = .error e) :
      Stops r (depth + 1) st operation args e reached.build
  /-- An operation that its script calls fails. -/
  | call {depth : Nat} {st st' : BuildState} {operation : String} {args : Args} {e : Error}
      {plugin : Registered} {before after : List Step} {step : Step} {reply : Reply}
      {reached : RunState} {inner : String} {args' : ArgsRef}
      (hscript : r.RunsScript operation plugin (before ++ step :: after))
      (hbefore : Step.runAll (dispatch r depth) (plugin.frame operation args) ⟨st, none⟩ .unit
        before = (.ok reply, reached))
      (hpasses : step.Passes e) (hcall : step.core = .call inner args')
      (hinner : Stops r depth reached.build inner ((plugin.frame operation args).argsOf args') e
        st') :
      Stops r (depth + 1) st operation args e st'

/-- An operation fails exactly where it stops, and leaves what it has reached. -/
theorem dispatch_eq_error_iff {r : Registry} {depth : Nat} {st st' : BuildState}
    {operation : String} {args : Args} {e : Error} :
    dispatch r depth st operation args = ⟨.error e, st'⟩ ↔
      Stops r depth st operation args e st' := by
  constructor
  · -- A call runs at a smaller depth, in the state that its script has reached.
    intro h
    induction depth generalizing st st' operation args with
    | zero =>
        obtain rfl := state_of_dispatch_error h (Or.inl rfl)
        exact .whole (Or.inl rfl) (by rw [h])
    | succ depth ih =>
        by_cases hscript : ∃ plugin steps, r.RunsScript operation plugin steps
        · obtain ⟨plugin, steps, hscript⟩ := hscript
          obtain ⟨stopped, hall, rfl⟩ := (dispatch_script_eq_error hscript).mp h
          obtain ⟨before, step, after, reply, reached, rfl, hbefore, hstep⟩ :=
            Step.runAll_eq_error.mp hall
          obtain ⟨hpasses, ⟨hcall, hrefused, rfl⟩ | ⟨inner, args', hcall, hinner, -⟩⟩ :=
            Step.run_eq_error.mp hstep
          · exact .step hscript hbefore hpasses hcall hrefused
          · exact .call hscript hbefore hpasses hcall (ih hinner)
        · have hnot : ∀ plugin steps, ¬ r.RunsScript operation plugin steps :=
            fun plugin steps h => hscript ⟨plugin, steps, h⟩
          obtain rfl := state_of_dispatch_error h (Or.inr hnot)
          exact .whole (Or.inr hnot) (by rw [h])
  · intro h
    induction h with
    | @whole depth st operation args e hscript hresult =>
        generalize ho : dispatch r depth st operation args = o at hresult
        obtain ⟨result, state⟩ := o
        obtain rfl : result = .error e := hresult
        rw [state_of_dispatch_error ho hscript]
    | @step depth st operation args e plugin before after step reply reached hscript hbefore
        hpasses hcall hstep =>
        have hrun : step.run (dispatch r depth) (plugin.frame operation args) reached =
            (.error e, reached) :=
          Step.run_eq_error.mpr ⟨hpasses, Or.inl ⟨hcall, hstep, rfl⟩⟩
        refine (dispatch_script_eq_error hscript).mpr ⟨reached, ?_, rfl⟩
        exact Step.runAll_eq_error.mpr ⟨before, step, after, reply, reached, rfl, hbefore, hrun⟩
    | @call depth st st' operation args e plugin before after step reply reached inner args'
        hscript hbefore hpasses hcall hinner ih =>
        have hrun : step.run (dispatch r depth) (plugin.frame operation args) reached =
            (.error e, ⟨st', reached.last⟩) :=
          Step.run_eq_error.mpr ⟨hpasses, Or.inr ⟨inner, args', hcall, ih, rfl⟩⟩
        refine (dispatch_script_eq_error hscript).mpr ⟨⟨st', reached.last⟩, ?_, rfl⟩
        exact Step.runAll_eq_error.mpr ⟨before, step, after, reply, reached, rfl, hbefore, hrun⟩

/-! ## Operations that leave no trace -/

/-- Steps that can change the tree or the cursor. -/
def Step.Changes : Step → Bool
  | .replyNode _ | .replyScope _ | .replyText _ | .replyUnit | .reportPlace | .fail _
  | .raise _ _ => false
  | .attempt step => step.Changes
  | _ => true

/-- What can be refused is looked at first: only the last step of a script
changes anything. -/
def Operation.ChecksFirst : Operation → Prop
  | .script steps => ∀ step ∈ steps.dropLast, step.Changes = false
  | _ => True

def Registry.ChecksFirst (r : Registry) : Prop :=
  ∀ operation plugin code, r.lookup? operation = some (plugin, code) → code.ChecksFirst

namespace Step

variable {callee : Callee} {f : Frame}

theorem build_simpleStep {st : RunState} {step : Step} (h : step.Changes = false)
    {build : BuildState} {reply : Reply} (hs : f.simpleStep st step = .ok (build, reply)) :
    build = st.build := by
  cases step with
  | replyNode node =>
      obtain ⟨id, -, hs⟩ := bind_eq_ok.mp hs
      exact (Prod.mk.inj (Except.ok.inj hs)).1.symm
  | replyScope node =>
      obtain ⟨id, -, hs⟩ := bind_eq_ok.mp hs
      exact (Prod.mk.inj (Except.ok.inj hs)).1.symm
  | replyText t => exact (Prod.mk.inj (Except.ok.inj hs)).1.symm
  | replyUnit => exact (Prod.mk.inj (Except.ok.inj hs)).1.symm
  | reportPlace => exact (Prod.mk.inj (Except.ok.inj hs)).1.symm
  | fail reason => cases hs
  | raise e _ => cases hs
  | attempt inner => exact (Prod.mk.inj (Except.ok.inj hs)).1.symm
  | _ => cases h

theorem build_run {st : RunState} {step : Step} (h : step.Changes = false) :
    (step.run callee f st).2.build = st.build := by
  induction step with
  | attempt step ih =>
      rw [← ih h, run]
      cases step.run callee f st with
      | mk result after => cases result <;> rfl
  | call operation args => cases h
  | _ =>
      rw [run_simple (by intro _ _ heq; cases heq) (by intro _ heq; cases heq), RunState.after]
      generalize hs : f.simpleStep st _ = x
      cases x with
      | error e => rfl
      | ok r => exact build_simpleStep h hs

theorem build_runAll {steps : List Step} (h : ∀ step ∈ steps, step.Changes = false)
    {st reached : RunState} {reply : Reply} {result : Except Error Reply}
    (hrun : runAll callee f st reply steps = (result, reached)) : reached.build = st.build := by
  induction steps generalizing st reply with
  | nil =>
      obtain ⟨-, rfl⟩ := Prod.mk.inj hrun
      rfl
  | cons step rest ih =>
      have hstep : (step.run callee f st).2.build = st.build :=
        build_run (h step List.mem_cons_self)
      rw [runAll] at hrun
      cases hfirst : step.run callee f st with
      | mk first next =>
          rw [hfirst] at hstep hrun
          cases first with
          | error e =>
              obtain ⟨-, rfl⟩ := Prod.mk.inj hrun
              exact hstep
          | ok own => exact (ih (fun s hs => h s (List.mem_cons_of_mem step hs)) hrun).trans hstep

end Step

/-- If every operation looks first and changes last, a failure changes nothing,
however deep the calls go. -/
theorem Stops.eq_of_checksFirst {r : Registry} (h : r.ChecksFirst) {depth : Nat}
    {st st' : BuildState} {operation : String} {args : Args} {e : Error}
    (hs : Stops r depth st operation args e st') : st' = st := by
  have hquiet : ∀ {operation plugin before step after}
      (_ : r.RunsScript operation plugin (before ++ step :: after)),
      ∀ s ∈ before, s.Changes = false := by
    intro operation plugin before step after hscript s hmem
    refine h operation plugin _ hscript.exported s ?_
    rw [List.dropLast_append_cons]
    exact List.mem_append.mpr (Or.inl hmem)
  induction hs with
  | whole _ _ => rfl
  | step hscript hbefore _ _ _ => exact Step.build_runAll (hquiet hscript) hbefore
  | call hscript hbefore _ _ _ ih =>
      exact ih.trans (Step.build_runAll (hquiet hscript) hbefore)

namespace Builder

theorem call_eq_error_iff {b b' : Builder} {operation : String} {args : Args} {e : Error} :
    b.call operation args = (.error e, b') ↔
      ∃ st, Stops b.registry callDepth b.state operation args e st
        ∧ b' = { b with state := st } := by
  rw [call]
  cases ho : dispatch b.registry callDepth b.state operation args with
  | mk result state =>
      constructor
      · intro h
        obtain ⟨rfl, rfl⟩ := Prod.mk.inj h
        exact ⟨state, dispatch_eq_error_iff.mp ho, rfl⟩
      · rintro ⟨st, hstops, rfl⟩
        obtain ⟨rfl, rfl⟩ := Outcome.mk.inj (ho.symm.trans (dispatch_eq_error_iff.mpr hstops))
        rfl

/-- To enter a scope is to call the operation and to put the cursor somewhere. -/
theorem enter_snd (b : Builder) (operation : String) (args : Args) :
    ∃ cursor, (b.enter operation args).2 = (b.call operation args).2.withCursor cursor := by
  rw [enter]
  cases b.call operation args with
  | mk result after =>
      cases result with
      | error e => exact ⟨after.state.cursor, rfl⟩
      | ok reply =>
          cases reply with
          | scope node => exact ⟨after.state.cursor, rfl⟩
          | _ => exact ⟨b.state.cursor, rfl⟩

/-- What `enter` does when it opens a scope. -/
theorem enter_eq_ok {b b' : Builder} {operation : String} {args : Args} {scope : Scope}
    (h : b.enter operation args = (.ok scope, b')) :
    b.call operation args = (.ok (.scope scope.node), b') ∧ scope.restoreTo = b.state.cursor := by
  rw [enter] at h
  cases hc : b.call operation args with
  | mk result after =>
      rw [hc] at h
      cases result with
      | error e => cases h
      | ok reply =>
          cases reply with
          | scope node =>
              obtain ⟨hscope, rfl⟩ := Prod.mk.inj h
              obtain rfl := Except.ok.inj hscope
              exact ⟨rfl, rfl⟩
          | _ => cases h

/-- What `enter` does when it does not open a scope. -/
theorem enter_eq_error {b b' : Builder} {operation : String} {args : Args} {e : Error}
    (h : b.enter operation args = (.error e, b')) :
    b.call operation args = (.error e, b')
      ∨ e = .notAScope operation ∧ ∃ reply after, b.call operation args = (.ok reply, after)
        ∧ b' = after.withCursor b.state.cursor := by
  rw [enter] at h
  cases hc : b.call operation args with
  | mk result after =>
      rw [hc] at h
      cases result with
      | error e' =>
          obtain ⟨he, rfl⟩ := Prod.mk.inj h
          rw [Except.error.inj he]
          exact Or.inl rfl
      | ok reply =>
          cases reply with
          | scope node => cases h
          | _ =>
              obtain ⟨he, rfl⟩ := Prod.mk.inj h
              exact Or.inr ⟨(Except.error.inj he).symm, _, after, rfl, rfl⟩

/-- **A failed operation stays where it stopped.** A call that fails leaves
exactly what the steps before the refused one have made of the build. So
nothing changes when the operation is none of a plugin's scripts, or when all
operations look first and change last. An operation that was entered and
opened no scope leaves its tree, and the cursor where it was. -/
theorem failed_call_stays_where_it_stopped (b : Builder) (operation : String) (args : Args) :
    (∀ e b', b.call operation args = (.error e, b') ↔
        ∃ st, Stops b.registry callDepth b.state operation args e st
          ∧ b' = { b with state := st })
      ∧ ((∀ plugin steps, ¬ b.registry.RunsScript operation plugin steps) →
          ∀ e b', b.call operation args = (.error e, b') → b' = b)
      ∧ (b.registry.ChecksFirst → ∀ e b', b.call operation args = (.error e, b') → b' = b)
      ∧ ∀ e b', b.enter operation args = (.error e, b') →
          (∃ after, b.call operation args = (.error e, after) ∧ b'.tree = after.tree)
            ∨ e = .notAScope operation ∧ ∃ reply after, b.call operation args = (.ok reply, after)
              ∧ b'.tree = after.tree ∧ b'.state.cursor = b.state.cursor := by
  refine ⟨fun e b' => call_eq_error_iff, fun hnot e b' h => ?_, fun hfirst e b' h => ?_,
    fun e b' h => ?_⟩
  · obtain ⟨st, hstops, rfl⟩ := call_eq_error_iff.mp h
    have hsame := state_of_dispatch_error (dispatch_eq_error_iff.mpr hstops) (Or.inr hnot)
    rw [hsame]
  · obtain ⟨st, hstops, rfl⟩ := call_eq_error_iff.mp h
    rw [hstops.eq_of_checksFirst hfirst]
  · rcases enter_eq_error h with hcall | ⟨he, reply, after, hcall, rfl⟩
    · exact Or.inl ⟨b', hcall, rfl⟩
    · exact Or.inr ⟨he, reply, after, hcall, rfl, rfl⟩

/-! ## A site that is put up halfway -/

/-- A plugin that opens a server and a route in it, but gives the route no path. -/
def staticSite : Plugin :=
  ⟨"static_site",
    .ofList [("add_static", .script [.call "add_server" (.given .none), .addRoute (.given .none)])],
    ["server", "location"]⟩

/-- A new builder that knows this plugin. -/
def withStaticSite : Builder :=
  { Builder.new 0 {} with registry := (Builder.new 0 {}).registry.record (.pooled 0) staticSite }

/-- The failed call leaves a server behind, with the cursor in it. -/
theorem not_failed_call_restores :
    (Builder.new 0 {}).register ⟨.pooled 0, staticSite, none⟩ =
        .ok (withStaticSite, ⟨.pooled 0, staticSite, some 0⟩)
      ∧ (withStaticSite.call "add_static" .none).1 =
          .error (.invalidArguments "add_route" .missingPath)
      ∧ (withStaticSite.call "add_static" .none).2.tree.name? 4 = some "server"
      ∧ withStaticSite.tree.name? 4 = none
      ∧ (withStaticSite.call "add_static" .none).2.current = some 4
      ∧ withStaticSite.current = some 3 :=
  ⟨rfl, rfl, rfl, rfl, rfl, rfl⟩

end Builder

end NginxConfig
