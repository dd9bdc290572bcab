import NginxConfig.Cli
import NginxConfig.Files.Memory
import NginxConfig.Proofs.Blueprint.Settings

/-!
# Validation and rendering

To validate a blueprint is to compile it with its own settings, and to render it
may be to compile it with others. What settings have no part in is the same for
both, and that is nearly everything: whether there is a configuration at all, the
error if there is none, and all of its text but four statements
(`settings_do_not_interfere`).
-/

namespace NginxConfig

/-! ## Programs that read -/

namespace Directory

variable {α β : Type} {d : Directory}

/-- What a program comes to. -/
def outcome (d : Directory) (x : StateM Directory α) : α :=
  (Id.run (x.run d)).1

/-- The program leaves the directory as it is. -/
def Leaves (d : Directory) (x : StateM Directory α) : Prop :=
  (Id.run (x.run d)).2 = d

theorem run_bind (x : StateM Directory α) (f : α → StateM Directory β) (d : Directory) :
    (x >>= f).run d = (f (d.outcome x)).run (Id.run (x.run d)).2 := rfl

theorem Leaves.bind {x : StateM Directory α} {f : α → StateM Directory β} (hx : d.Leaves x)
    (hf : ∀ a, d.Leaves (f a)) : d.Leaves (x >>= f) := by
  rw [Leaves] at hx
  rw [Leaves, run_bind, hx]
  exact hf (d.outcome x)

theorem Leaves.outcome_bind {x : StateM Directory α} (hx : d.Leaves x)
    (f : α → StateM Directory β) : d.outcome (x >>= f) = d.outcome (f (d.outcome x)) := by
  rw [Leaves] at hx
  rw [outcome, run_bind, hx]
  rfl

theorem leaves_readText (path : String) : d.Leaves (files.readText path) := rfl

theorem run_write (d : Directory) (path content : String) :
    (files.write path content).run d =
      match d.write path content with
      | .ok d' => (.ok (), d')
      | .error e => (.error e, d) := by
  have hstep : (files.write path content).run d =
      (match d.write path content with
        | .ok d' => do
          MonadStateOf.set d'
          return .ok ()
        | .error e => return .error e : StateM Directory (Except FileError Unit)).run d := rfl
  rw [hstep]
  cases d.write path content <;> rfl

theorem leaves_loadBlueprint (path : String) : d.Leaves (Blueprint.load files path) := by
  rw [Blueprint.load]
  cases Blueprint.formatOf path with
  | error e => rfl
  | ok format =>
      refine (leaves_readText path).bind fun r => ?_
      cases r <;> rfl

theorem leaves_loadSettings (path : String) : d.Leaves (Settings.load files path) := by
  rw [Settings.load]
  cases Format.ofPath? path with
  | none => rfl
  | some format =>
      refine (leaves_readText path).bind fun r => ?_
      cases r <;> rfl

theorem leaves_chooseSettings (bp : Blueprint) (settings : Option String) :
    d.Leaves (Cli.chooseSettings files bp settings) := by
  cases settings with
  | none => rfl
  | some path =>
      refine (leaves_loadSettings path).bind fun r => ?_
      cases r <;> rfl

theorem leaves_renderBlueprint (path : String) (settings : Option String) :
    d.Leaves (Cli.renderBlueprint files path settings) := by
  refine (leaves_loadBlueprint path).bind fun r => ?_
  cases r with
  | error e => rfl
  | ok bp =>
      refine (leaves_chooseSettings bp settings).bind fun r => ?_
      cases r with
      | error e => rfl
      | ok s =>
          simp only
          cases ({ bp with settings := s } : Blueprint).compile 1 <;> rfl

end Directory

namespace Cli

open Directory (files)

variable {d : Directory} {path : String}

/-- What becomes of a blueprint that is validated. -/
theorem outcome_validate (d : Directory) (path : String) (workers : Nat) :
    d.outcome ((Command.validate path).run files workers) =
      match Blueprint.buildFrom (d.outcome (Blueprint.load files path)) 1 with
      | .ok _ => .ok ("Blueprint '" ++ path ++ "' is valid\n")
      | .error e => .error (.invalid e) := by
  refine ((Directory.leaves_loadBlueprint path).outcome_bind _).trans ?_
  cases Blueprint.buildFrom (d.outcome (Blueprint.load files path)) 1 <;> rfl

/-- What becomes of a blueprint that is rendered, once there are settings. -/
theorem outcome_renderBlueprint {settings : Option String}
    {bp : Blueprint} {s : Settings} (hload : d.outcome (Blueprint.load files path) = .ok bp)
    (hsettings : d.outcome (chooseSettings files bp settings) = .ok s) :
    d.outcome (renderBlueprint files path settings) =
      match ({ bp with settings := s } : Blueprint).compile 1 with
      | .ok b => .ok (outputOf b)
      | .error e => .error (.compiling path e) := by
  refine ((Directory.leaves_loadBlueprint path).outcome_bind _).trans ?_
  rw [hload]
  refine ((Directory.leaves_chooseSettings bp settings).outcome_bind _).trans ?_
  rw [hsettings]
  simp only
  cases ({ bp with settings := s } : Blueprint).compile 1 <;> rfl

/-- What becomes of a text, and of the directory: the text is shown, or written to a file. -/
def deliver (d : Directory) (text : String) :
    Option String → Except Failure String × Directory
  | none => (.ok (text ++ "\n"), d)
  | some p =>
    match d.write p text with
    | .ok d' => (.ok "", d')
    | .error e => (.error (.writing p e), d)

/-- Once there is a text, all that can fail is to write it. -/
theorem run_render (d : Directory) (path : String) (output settings : Option String)
    (workers : Nat) :
    Id.run (((Command.render path output settings).run files workers).run d) =
      match d.outcome (renderBlueprint files path settings) with
      | .error e => (.error e, d)
      | .ok text => deliver d text output := by
  have hleaves := Directory.leaves_renderBlueprint (d := d) path settings
  rw [Directory.Leaves] at hleaves
  refine (congrArg Id.run (Directory.run_bind (renderBlueprint files path settings) _ d)).trans ?_
  rw [hleaves]
  cases d.outcome (renderBlueprint files path settings) with
  | error e => rfl
  | ok text =>
      cases output with
      | none => rfl
      | some p =>
          refine (congrArg Id.run (Directory.run_bind (files.write p text) _ d)).trans ?_
          rw [Directory.outcome, Directory.run_write]
          simp only [deliver]
          cases d.write p text <;> rfl

/-! ## Blueprints in files -/

/-- The blueprint in a file can be loaded and compiled to this, with its own settings or
with those in another file. -/
inductive Compiles (d : Directory) (path : String) : Option String → Builder → Prop
  | own {bp : Blueprint} {b : Builder} (hload : d.outcome (Blueprint.load files path) = .ok bp)
      (hcompile : bp.compile 1 = .ok b) : Compiles d path none b
  | other {p : String} {bp : Blueprint} {s : Settings} {b : Builder}
      (hload : d.outcome (Blueprint.load files path) = .ok bp)
      (hsettings : d.outcome (Settings.load files p) = .ok s)
      (hcompile : ({ bp with settings := s } : Blueprint).compile 1 = .ok b) :
      Compiles d path (some p) b

variable {settings : Option String} {b : Builder}

theorem outcome_chooseSettings_eq_ok {p : String} {bp : Blueprint} {s : Settings} :
    d.outcome (chooseSettings files bp (some p)) = .ok s ↔
      d.outcome (Settings.load files p) = .ok s := by
  rw [show d.outcome (chooseSettings files bp (some p)) = _ from
    (Directory.leaves_loadSettings p).outcome_bind _]
  cases d.outcome (Settings.load files p) with
  | ok settings =>
      exact ⟨fun h => congrArg _ (Except.ok.inj h), fun h => congrArg _ (Except.ok.inj h)⟩
  | error e => exact ⟨fun h => (nomatch h), fun h => (nomatch h)⟩

/-- The command line chooses the settings by the same rule. -/
theorem compiles_iff :
    Compiles d path settings b ↔ ∃ bp s, d.outcome (Blueprint.load files path) = .ok bp
      ∧ d.outcome (chooseSettings files bp settings) = .ok s
      ∧ ({ bp with settings := s } : Blueprint).compile 1 = .ok b := by
  constructor
  · rintro (⟨hload, hcompile⟩ | ⟨hload, hsettings, hcompile⟩)
    · exact ⟨_, _, hload, rfl, hcompile⟩
    · exact ⟨_, _, hload, outcome_chooseSettings_eq_ok.mpr hsettings, hcompile⟩
  · rintro ⟨bp, s, hload, hsettings, hcompile⟩
    cases settings with
    | none =>
        obtain rfl : bp.settings = s := Except.ok.inj hsettings
        exact .own hload hcompile
    | some p => exact .other hload (outcome_chooseSettings_eq_ok.mp hsettings) hcompile

theorem exists_settings
    (hsettings : ∀ p ∈ settings, ∃ s, d.outcome (Settings.load files p) = .ok s) (bp : Blueprint) :
    ∃ s, d.outcome (chooseSettings files bp settings) = .ok s := by
  cases settings with
  | none => exact ⟨bp.settings, rfl⟩
  | some p =>
      obtain ⟨s, hs⟩ := hsettings p rfl
      exact ⟨s, outcome_chooseSettings_eq_ok.mpr hs⟩

/-- Settings that can be loaded are as good as those of the blueprint. -/
theorem exists_compiles_iff
    (hsettings : ∀ p ∈ settings, ∃ s, d.outcome (Settings.load files p) = .ok s) :
    (∃ b, Compiles d path settings b) ↔
      ∃ bp b, d.outcome (Blueprint.load files path) = .ok bp ∧ bp.compile 1 = .ok b := by
  constructor
  · rintro ⟨b, hb⟩
    obtain ⟨bp, s, hload, -, hcompile⟩ := compiles_iff.mp hb
    obtain ⟨b', hown⟩ := bp.exists_compile hcompile bp.settings 1
    exact ⟨bp, b', hload, hown⟩
  · rintro ⟨bp, b, hload, hcompile⟩
    obtain ⟨s, hs⟩ := exists_settings hsettings bp
    obtain ⟨b', hother⟩ := bp.exists_compile hcompile s 1
    exact ⟨b', compiles_iff.mpr ⟨bp, s, hload, hs, hother⟩⟩

/-! ### What is rendered -/

theorem Compiles.outcome_renderBlueprint (h : Compiles d path settings b) :
    d.outcome (renderBlueprint files path settings) = .ok (outputOf b) := by
  obtain ⟨bp, s, hload, hs, hcompile⟩ := compiles_iff.mp h
  rw [Cli.outcome_renderBlueprint hload hs, hcompile]

theorem outcome_renderBlueprint_of_compile_error
    (hsettings : ∀ p ∈ settings, ∃ s, d.outcome (Settings.load files p) = .ok s)
    {bp : Blueprint} (hload : d.outcome (Blueprint.load files path) = .ok bp) {e : Error}
    (hcompile : bp.compile 1 = .error e) :
    d.outcome (renderBlueprint files path settings) = .error (.compiling path e) := by
  obtain ⟨s, hs⟩ := exists_settings hsettings bp
  have hother := (bp.compile_eq_error_iff bp.settings s 1 1 e).mp hcompile
  rw [outcome_renderBlueprint hload hs, hother]

theorem outcome_renderBlueprint_of_load_error {e : SourceError}
    (hload : d.outcome (Blueprint.load files path) = .error e) (settings : Option String) :
    d.outcome (renderBlueprint files path settings) = .error (.loading path e) := by
  refine ((Directory.leaves_loadBlueprint path).outcome_bind _).trans ?_
  rw [hload]
  rfl

theorem deliver_cases (d : Directory) (text : String) (output : Option String) :
    (∃ shown, (deliver d text output).1 = .ok shown)
      ∨ ∃ p e, output = some p ∧ (deliver d text output).1 = .error (.writing p e) := by
  cases output with
  | none => exact Or.inl ⟨_, rfl⟩
  | some p =>
      rw [deliver]
      cases d.write p text with
      | ok d' => exact Or.inl ⟨_, rfl⟩
      | error e => exact Or.inr ⟨p, e, rfl, rfl⟩

end Cli

/-- **Settings do not interfere, and validation predicts rendering.** With any two settings a
blueprint compiles or has the same error. The two trees then hang together in the same way and
differ in the options of the global and the `events` scope at most, so the `http` block is drawn
alike. The text is that of the blueprint with four lines put in, which take one row each: three
with which it begins, unless the blueprint has globals of these names, and one in the `events`
block. So the command line accepts the blueprint in a file if and only if it can be loaded and
compiled, and then it compiles as well with settings from a file, if these can be loaded, and
its text is shown or written; otherwise both commands fail, with the same error of loading or of
compiling it. -/
theorem settings_do_not_interfere :
    (∀ (bp : Blueprint) (s s' : Settings) (id id' : BuilderId),
      let compiled := ({ bp with settings := s } : Blueprint).compile id
      let compiled' := ({ bp with settings := s' } : Blueprint).compile id'
      ((∃ b, compiled = .ok b) ↔ ∃ b, compiled' = .ok b)
        ∧ (∀ e, compiled = .error e ↔ compiled' = .error e)
        ∧ ∀ b b', compiled = .ok b → compiled' = .ok b' →
            b'.roots = b.roots ∧ b'.current = b.current
              ∧ b.tree.AlikeBut b'.tree [b.roots.globals, b.roots.events]
              ∧ b.tree.DrawnAlike b'.tree b.roots.http)
      ∧ (∀ bp : Blueprint, ∃ extra http : List Line, ∀ s id b,
          ({ bp with settings := s } : Blueprint).compile id = .ok b →
            b.render = Line.renderAll (s.globalLines bp.globals ++ extra
              ++ [Line.opening 0 "events", s.eventLine, Line.closing 0] ++ http)
              ∧ b.tree.lines b.roots.http 0 = http)
      ∧ (∀ s : Settings, ∀ l ∈ s.eventLine :: s.globalLines ∅, Text.OneRow l.text)
      ∧ ∀ (d : Directory) (path : String) (output settings : Option String) (workers : Nat),
          (∀ p ∈ settings, ∃ s, d.outcome (Settings.load Directory.files p) = .ok s) →
            let loaded := d.outcome (Blueprint.load Directory.files path)
            let validated := d.outcome ((Cli.Command.validate path).run Directory.files workers)
            let render := (Cli.Command.render path output settings).run Directory.files workers
            let rendered := d.outcome render
            (∀ line, validated = .ok line ↔
                line = "Blueprint '" ++ path ++ "' is valid\n" ∧ ∃ b, Cli.Compiles d path none b)
              ∧ ((∃ b, Cli.Compiles d path none b) ↔ ∃ b, Cli.Compiles d path settings b)
              ∧ (∀ b, Cli.Compiles d path settings b →
                  Id.run (render.run d) = Cli.deliver d (Cli.outputOf b) output)
              ∧ ((∃ line, validated = .ok line) ↔ (∃ text, rendered = .ok text)
                  ∨ ∃ p e, output = some p ∧ rendered = .error (.writing p e))
              ∧ (∀ e,
                  (validated = .error (.invalid (.build e)) ↔
                    ∃ bp, loaded = .ok bp ∧ bp.compile 1 = .error e)
                  ∧ (rendered = .error (.compiling path e) ↔
                    ∃ bp, loaded = .ok bp ∧ bp.compile 1 = .error e))
              ∧ ∀ e, (validated = .error (.invalid (.source e)) ↔ loaded = .error e)
                ∧ (rendered = .error (.loading path e) ↔ loaded = .error e) := by
  refine ⟨fun bp s s' id id' =>
      ⟨⟨fun ⟨_, h⟩ => bp.exists_compile h s' id', fun ⟨_, h⟩ => bp.exists_compile h s id⟩,
        bp.compile_eq_error_iff s s' id id', fun b b' h h' => Blueprint.alike_of_compile h h'⟩,
    fun bp => ⟨_, _, fun s id b h => ⟨Blueprint.render_of_compile h, Blueprint.lines_http h⟩⟩,
    fun s => List.forall_mem_cons.mpr ⟨s.oneRow_eventLine, s.oneRow_globalLines⟩,
    fun d path output settings workers hsettings => ?_⟩
  intro loaded validated render rendered
  have hrun := Cli.run_render d path output settings workers
  have hrendered : rendered = _ := congrArg Prod.fst hrun
  have hvalidated : validated = _ := Cli.outcome_validate d path workers
  have hown : (∃ b, Cli.Compiles d path none b) ↔ _ :=
    Cli.exists_compiles_iff fun _ h => nomatch h
  have hany : (∃ b, Cli.Compiles d path settings b) ↔ _ := Cli.exists_compiles_iff hsettings
  refine ⟨?_, hown.trans hany.symm, fun b hb => by rw [hrun, hb.outcome_renderBlueprint], ?_⟩
  · intro line
    rw [hown, hvalidated]
    cases hload : d.outcome (Blueprint.load Directory.files path) with
    | error e => simp [Blueprint.buildFrom]
    | ok bp =>
        cases hcompile : bp.compile 1 <;>
          simp [Blueprint.buildFrom, Blueprint.build, hcompile, eq_comm]
  · -- The file is not loaded, or not compiled, or its text is there to be shown or written.
    cases hload : d.outcome (Blueprint.load Directory.files path) with
    | error e =>
        rw [hload, Blueprint.buildFrom] at hvalidated
        rw [Cli.outcome_renderBlueprint_of_load_error hload] at hrendered
        simp [loaded, hload, hvalidated, hrendered]
    | ok bp =>
        rw [hload, Blueprint.buildFrom, Blueprint.build] at hvalidated
        cases hcompile : bp.compile 1 with
        | error e =>
            rw [hcompile] at hvalidated
            rw [Cli.outcome_renderBlueprint_of_compile_error hsettings hload hcompile] at hrendered
            simp [loaded, hload, hcompile, hvalidated, hrendered]
        | ok b =>
            obtain ⟨b', hb'⟩ := hany.mpr ⟨bp, b, hload, hcompile⟩
            rw [hcompile] at hvalidated
            rw [hb'.outcome_renderBlueprint] at hrendered
            rcases Cli.deliver_cases d (Cli.outputOf b') output with ⟨shown, hd⟩ | ⟨p, e, rfl, hd⟩
            · simp [loaded, hload, hcompile, hvalidated, hrendered.trans hd]
            · simp [loaded, hload, hcompile, hvalidated, hrendered.trans hd]

end NginxConfig
