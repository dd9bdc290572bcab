import NginxConfig.Proofs.Builder.Openings
import NginxConfig.Proofs.Directive.NormalForm

/-!
# Values that write nothing

Whether an argument is missing is decided on the value that is given, and whether a
statement has a value only shows in its text. The two agree except for a text of blanks:
it is not empty, but there are no words in it, so its statement has no value
(`Directive.statement_eq_bare_iff`). A host name of blanks therefore passes for one, and
the server has a name line without a name; all other host names have one, since an empty
one gives way to the name for any host.
-/

namespace NginxConfig

/-! ## Texts without words -/

theorem Text.words_eq_nil {s : String} : words s = [] ↔ allBlank s = true := by
  rw [words, List.map_eq_nil_iff, allBlank, List.all_eq_true]
  constructor
  · intro h c hc
    have hkept : s.toList.filter (!isBlank ·) = [] := by rw [← flatten_wordsOf, h, List.flatten_nil]
    simpa using List.filter_eq_nil_iff.mp hkept c hc
  · intro h
    have hflat : (wordsOf s.toList).flatten = [] := by
      rw [flatten_wordsOf, List.filter_eq_nil_iff]
      exact fun c hc => by simp [h c hc]
    refine List.eq_nil_iff_forall_not_mem.mpr fun w hw => ?_
    exact (wordsOf_solid s.toList w hw).1 (List.flatten_eq_nil_iff.mp hflat w hw)

/-- A text with blanks in it and nothing else. -/
def Value.OnlyBlanks (v : Value) : Prop :=
  ∃ s, v = .str s ∧ s ≠ "" ∧ Text.allBlank s = true

theorem Text.hasBlank_of_allBlank {s : String} (hne : s ≠ "") (h : allBlank s = true) :
    hasBlank s = true := by
  obtain ⟨c, cs, hcs⟩ := List.exists_cons_of_ne_nil (mt String.toList_eq_nil_iff.mp hne)
  rw [allBlank, hcs, List.all_cons, Bool.and_eq_true] at h
  rw [hasBlank, hcs, List.any_cons, h.1, Bool.true_or]

namespace Directive

variable {name : String}

theorem append_semicolon_eq_iff {body : String} :
    name ++ body ++ ";" = name ++ ";" ↔ body = "" := by
  rw [← String.toList_inj, ← String.toList_inj]
  simp

theorem written_eq_empty {text : String} : written text = "" ↔ text = "" := by
  rw [written]
  split
  · next h => simp [h]
  · next h => simpa [String.append_eq_empty_iff] using h

/-- A statement has no value exactly if the value is empty or a text of blanks. -/
theorem statement_eq_bare_iff {v : Value} :
    (ofOption name v).statement = name ++ ";" ↔ v.isEmpty = true ∨ v.OnlyBlanks := by
  by_cases hblank : ∃ s, v = .str s ∧ Text.hasBlank s = true
  · obtain ⟨s, rfl, hs⟩ := hblank
    have hne : s ≠ "" := by
      rintro rfl
      cases hs
    have hjoin : String.join ((Text.words s).map (" " ++ ·)) = "" ↔ Text.words s = [] := by
      cases Text.words s with
      | nil => simp
      | cons w ws => simp [String.join_cons, String.append_eq_empty_iff]
    have hempty : (Value.str s).isEmpty = false := by simpa [Value.isEmpty] using hne
    rw [statement_ofOption_of_hasBlank hs, append_semicolon_eq_iff, hjoin, Text.words_eq_nil,
      hempty]
    constructor
    · exact fun hall => Or.inr ⟨s, rfl, hne, hall⟩
    · rintro (h | ⟨t, ht, -, hall⟩)
      · cases h
      · exact Value.str.inj ht ▸ hall
  · have hplain : ∀ s, v = .str s → Text.hasBlank s = false := fun s hs => by
      simpa using fun h => hblank ⟨s, hs, h⟩
    rw [statement_ofOption hplain, append_semicolon_eq_iff, written_eq_empty, ← v.isEmpty_iff]
    refine (or_iff_left ?_).symm
    rintro ⟨s, rfl, hne, hall⟩
    exact hblank ⟨s, rfl, Text.hasBlank_of_allBlank hne hall⟩

/-- Of a value that is not empty, only blanks leave nothing. -/
theorem statement_eq_bare_iff_onlyBlanks {v : Value} (h : v.isEmpty = false) :
    (ofOption name v).statement = name ++ ";" ↔ v.OnlyBlanks := by
  rw [statement_eq_bare_iff, h]
  simp

end Directive

/-! ## Arguments -/

namespace Args

variable {a : Args} {keys : List String}

theorem first?_eq_some {v : Value} :
    a.first? keys = some v ↔ a.lookup? 0 keys = some v ∧ v.isEmpty = false := by
  rw [first?_eq, Option.filter_eq_some_iff, Bool.not_eq_true']

end Args

namespace Context

variable {args : Args} {keys : List String} {operation : String} {default v : Value}

/-- What counts for an argument is what is given, unless that is empty. -/
theorem argumentOr_eq_ok (h : argumentOr args operation keys default = .ok v) :
    v = (args.first? keys).getD default := by
  obtain ⟨given, hgiven, h⟩ := bind_eq_ok.mp h
  rcases Nat.lt_or_ge 1 (args.given 0 keys).length with hlt | hle
  · rw [Args.single_of_lt hlt] at hgiven
    cases hgiven
  · rw [Args.single_of_le hle] at hgiven
    obtain rfl := Except.ok.inj hgiven
    exact (Except.ok.inj h).symm

/-- An argument comes out without a text in one case only, if that is true of its default
in none. -/
theorem argumentOr_writes (h : argumentOr args operation keys default = .ok v)
    (hdefault : default.isEmpty = false ∧ ¬ default.OnlyBlanks) (name : String) :
    (Directive.ofOption name v).statement = name ++ ";" ↔
      ∃ given, args.lookup? 0 keys = some given ∧ given.OnlyBlanks := by
  obtain ⟨hfilled, hsolid⟩ := hdefault
  have hblank : ∀ {given : Value}, given.OnlyBlanks → given.isEmpty = false := by
    rintro _ ⟨s, rfl, hne, -⟩
    simpa [Value.isEmpty] using hne
  rw [argumentOr_eq_ok h]
  cases hfirst : args.first? keys with
  | some given =>
      obtain ⟨hlookup, hgiven⟩ := Args.first?_eq_some.mp hfirst
      rw [Option.getD_some, Directive.statement_eq_bare_iff_onlyBlanks hgiven, hlookup]
      simp
  | none =>
      rw [Option.getD_none, Directive.statement_eq_bare_iff_onlyBlanks hfilled]
      refine iff_of_false hsolid ?_
      rintro ⟨given, hlookup, hgiven⟩
      rw [Args.first?_eq_some.mpr ⟨hlookup, hblank hgiven⟩] at hfirst
      cases hfirst

/-! ## Servers and routes -/

variable {ctx : Context} {st st' : BuildState} {reply : Reply}

/-- A block that was opened is in the next slot, with its header and its options. -/
theorem openScope_container {header : Option String} {options : Options}
    (h : ctx.openScope st (.container header options []) = .ok (st', reply)) :
    reply = .scope st.tree.size
      ∧ st'.tree.container? st.tree.size = some ⟨header, options, []⟩ := by
  obtain ⟨⟨after, id⟩, hattach, h⟩ := bind_eq_ok.mp h
  rcases ctx.attach_cases st (.container header options []) with
    ⟨scope, hallows, hok⟩ | ⟨-, e, herror⟩
  · obtain ⟨rfl, rfl⟩ := Prod.mk.inj (Except.ok.inj (hattach.symm.trans hok))
    obtain ⟨rfl, rfl⟩ := Prod.mk.inj (Except.ok.inj h)
    exact ⟨rfl, Tree.container?_append_empty hallows.hasContainer.lt_size header options⟩
  · cases hattach.symm.trans herror

/-- The first line of a server is its name. -/
theorem addServer_writes (h : ctx.addServer args st = .ok (st', reply)) :
    ∃ host options, reply = .scope st.tree.size
      ∧ st'.tree.container? st.tree.size = some ⟨some "server", options, []⟩
      ∧ options.entries.head? = some ("server_name", (args.named? "server_name").getD host)
      ∧ ((Directive.ofOption "server_name" host).statement = "server_name;" ↔
          ∃ given, args.lookup? 0 ["hostname", "name"] = some given ∧ given.OnlyBlanks) := by
  obtain ⟨host, hhost, h⟩ := bind_eq_ok.mp h
  have hany : anyHost.isEmpty = false ∧ ¬ anyHost.OnlyBlanks := by
    refine ⟨rfl, ?_⟩
    rintro ⟨s, hs, -, hall⟩
    rw [← Value.str.inj hs] at hall
    exact absurd hall (by decide)
  obtain ⟨hreply, hcontainer⟩ := openScope_container h
  refine ⟨host, _, hreply, hcontainer, ?_, argumentOr_writes hhost hany "server_name"⟩
  rw [argumentOr_eq_ok hhost, Table.insertAll_eq_overlay]
  exact congrArg List.head? (Builder.entries_serverOptions args)

/-- A route is opened for a path that is given and not empty. -/
theorem addRoute_writes (h : ctx.addRoute args st = .ok (st', reply)) :
    ∃ path options, reply = .scope st.tree.size
      ∧ st'.tree.container? st.tree.size = some ⟨some (locationHeader path.text), options, []⟩
      ∧ args.lookup? 0 ["path"] = some path ∧ path.isEmpty = false
      ∧ ∀ name, (Directive.ofOption name path).statement = name ++ ";" ↔ path.OnlyBlanks := by
  rw [addRoute_eq] at h
  obtain ⟨s, hs, h⟩ := bind_eq_ok.mp h
  rcases Nat.lt_or_ge 1 (args.places 0 pathKeys) with hlt | hle
  · rw [routeSection_of_lt hlt] at hs
    cases hs
  cases hfirst : args.first? pathKeys with
  | none =>
      rw [routeSection_of_none hle hfirst] at hs
      cases hs
  | some path =>
      rw [routeSection_of_some hle hfirst] at hs
      obtain rfl := Except.ok.inj hs
      obtain ⟨hreply, hcontainer⟩ := openScope_container h
      obtain ⟨hlookup, hfilled⟩ := Args.first?_eq_some.mp hfirst
      exact ⟨path, _, hreply, hcontainer, hlookup, hfilled,
        fun name => Directive.statement_eq_bare_iff_onlyBlanks hfilled⟩

end Context

/-- **Only blanks pass for a value.** A statement has no value if and only if its value is
empty or a text of blanks. So an argument that has a default with a text writes nothing if
and only if it is given as a text of blanks. This goes for the name line of a server, in
every scope and with every other option, and the path of a route that is let through writes
nothing in the same case. -/
theorem only_blanks_pass_for_a_value (name : String) (v : Value) (ctx : Context) (args : Args)
    (st st' : BuildState) (reply : Reply) :
    ((Directive.ofOption name v).statement = name ++ ";" ↔ v.isEmpty = true ∨ v.OnlyBlanks)
      ∧ (∀ operation keys default,
          Context.argumentOr args operation keys default = .ok v →
          default.isEmpty = false ∧ ¬ default.OnlyBlanks →
            ((Directive.ofOption name v).statement = name ++ ";" ↔
              ∃ given, args.lookup? 0 keys = some given ∧ given.OnlyBlanks))
      ∧ (ctx.addServer args st = .ok (st', reply) →
          ∃ host options, reply = .scope st.tree.size
            ∧ st'.tree.container? st.tree.size = some ⟨some "server", options, []⟩
            ∧ options.entries.head? = some ("server_name", (args.named? "server_name").getD host)
            ∧ ((Directive.ofOption "server_name" host).statement = "server_name;" ↔
                ∃ given, args.lookup? 0 ["hostname", "name"] = some given ∧ given.OnlyBlanks))
      ∧ (ctx.addRoute args st = .ok (st', reply) →
          ∃ path options, reply = .scope st.tree.size
            ∧ st'.tree.container? st.tree.size =
              some ⟨some ("location " ++ path.text), options, []⟩
            ∧ args.lookup? 0 ["path"] = some path ∧ path.isEmpty = false
            ∧ ∀ name, (Directive.ofOption name path).statement = name ++ ";" ↔ path.OnlyBlanks) :=
  ⟨Directive.statement_eq_bare_iff,
    fun _ _ _ h hdefault => Context.argumentOr_writes h hdefault name,
    Context.addServer_writes, Context.addRoute_writes⟩

/-- A space is not empty, and is no value either. -/
theorem not_only_empty_writes_nothing :
    ¬ ∀ (name : String) (v : Value),
      v.isEmpty = true ↔ (Directive.ofOption name v).statement = name ++ ";" := by
  intro h
  exact absurd ((h "server_name" (.str " ")).mpr (by decide)) (by decide)

end NginxConfig
