import NginxConfig.Proofs.Blueprint.Schema
import NginxConfig.Source

/-!
# The parts of a blueprint and of its document

Blueprints, settings, servers and routes are made by the rules of a schema, and so it can be
said of any part of a document what it is taken for (`Part.follow`). If the document is
accepted, each part of it is accepted for what it is taken for (`Part.of_follow`). If a part
is then changed, so that it has a fault, or is accepted for the same as before, that is what
happens to the whole document (`Part.becomes_follow`).
-/

namespace NginxConfig

/-! ## The four records -/

/-- A field that is taken up has been missing so far. Another document in its place has the
same outcome for the draft as it has for the field. -/
theorem giveOnce_ok {α δ : Type} {key : String} {current : Option α}
    {decode : Document → Except Fault α} {put : Option α → δ} {d : Document} {s' : δ}
    (h : (giveOnce key current (decode d)).map put = .ok s') :
    current = none ∧ ∃ a, decode d = .ok a ∧ s' = put (some a)
      ∧ ∀ fault? d', decode d' = outcome fault? a →
          (giveOnce key current (decode d')).map put = outcome fault? s' := by
  cases current with
  | some x => cases h
  | none =>
      obtain ⟨a?, hgive, rfl⟩ := map_eq_ok.mp h
      obtain ⟨a, ha, rfl⟩ := map_eq_ok.mp hgive
      refine ⟨rfl, a, ha, rfl, fun fault? d' hd' => ?_⟩
      rw [giveOnce, hd']
      cases fault? <;> rfl

/-! ### Fields that are values -/

namespace Document

variable {d : Document}

theorem isSome_of_asText {s : String} (h : d.asText = .ok s) : (Value.ofDocument? d).isSome := by
  cases d <;> first | rfl | cases h

theorem isSome_of_asBool {b : Bool} (h : d.asBool = .ok b) : (Value.ofDocument? d).isSome := by
  cases d <;> first | rfl | cases h

theorem isSome_of_asWord {n : UInt32} (h : d.asWord = .ok n) : (Value.ofDocument? d).isSome := by
  cases d <;> first | rfl | cases h

theorem isSome_of_asOptionalText {s : Option String} (h : d.asOptionalText = .ok s) :
    (Value.ofDocument? d).isSome := by
  cases d <;> first | rfl | cases h

theorem isSome_of_workerProcesses {w : WorkerProcesses} (h : WorkerProcesses.decode d = .ok w) :
    (Value.ofDocument? d).isSome := by
  cases d <;> first | rfl | cases h

end Document

/-! ### Settings -/

namespace Settings

theorem set_unknown {s : SettingsDraft} {key : String} {d : Document} (hkey : key ∉ fields) :
    s.set key d = .ok s := by
  unfold SettingsDraft.set
  split
  all_goals first | rfl | exact absurd (by decide) hkey

/-- Every field of the settings is a value. -/
theorem isSome_of_set {s s' : SettingsDraft} {key : String} {d : Document} (hkey : key ∈ fields)
    (h : s.set key d = .ok s') : (Value.ofDocument? d).isSome := by
  unfold SettingsDraft.set at h
  split at h
  · split at h
    · cases h
    · obtain ⟨w, hw, -⟩ := map_eq_ok.mp h
      exact Document.isSome_of_workerProcesses hw
  · split at h
    · cases h
    · obtain ⟨n, hn, -⟩ := map_eq_ok.mp h
      exact Document.isSome_of_asWord hn
  · split at h
    · cases h
    · obtain ⟨t, ht, -⟩ := map_eq_ok.mp h
      exact Document.isSome_of_asText ht
  · split at h
    · cases h
    · obtain ⟨b, hb, -⟩ := map_eq_ok.mp h
      exact Document.isSome_of_asBool hb
  · simp_all [fields]

/-- Settings let other fields pass. -/
def schema : Schema Settings where
  Draft := SettingsDraft
  start := {}
  fields := fields
  name := "struct BuilderSettings"
  strict := false
  take _ s p := s.set p.1 p.2
  finish s := .ok s.finish
  given _ := fields.map fun _ => some .value
  parts _ := fields.map fun _ => .value
  take_unknown hkey := set_unknown hkey
  take_ok {_ _ _ key _} hkey h := by
    have hvalue : fieldOf fields (fields.map fun _ => some Part.value) key =
        some (some .value) := by
      simp only [fields, List.mem_cons, List.not_mem_nil, or_false] at hkey
      rcases hkey with rfl | rfl | rfl | rfl <;> rfl
    exact ⟨.value, ⟨rfl, isSome_of_set hkey h⟩, hvalue, .refl _, fun hne => absurd rfl hne⟩
  finish_ok _ := by
    refine List.forall₂_map_left_iff.mpr (List.forall₂_map_right_iff.mpr ?_)
    exact List.forall₂_same.mpr fun _ _ _ hx => (Option.some.inj hx).symm

theorem decode_eq (c : Convention) (d : Document) : decode c d = schema.decode c d := by
  cases d with
  | list items =>
      have hextra : refuseExtra c (items.drop fields.length) =
          if fields.length < items.length && !c.allowsExtra then .error .tooLong else .ok () := by
        have hempty : (items.drop fields.length).isEmpty =
            !decide (fields.length < items.length) := by
          rw [Bool.eq_iff_iff]
          simp [List.isEmpty_iff]
        rw [refuseExtra, hempty]
        cases decide (fields.length < items.length) <;> cases c.allowsExtra <;> rfl
      rw [decode, Schema.decode]
      show _ = (schema.takeAll c schema.start (fields.zip items) >>= fun s =>
        refuseExtra c (items.drop fields.length) >>= fun _ => schema.finish s)
      rw [hextra]
      refine congrArg _ (funext fun s => ?_)
      split <;> rfl
  | _ => rfl

end Settings

/-! ### Routes -/

/-- What each field is taken for, if it is given. -/
def RouteDraft.given (r : RouteDraft) : List (Option Part) :=
  [r.path.map fun _ => .value, r.options.map .options, r.routes.map .routes]

namespace Route

theorem take_ok {c : Convention} {s s' : RouteDraft} {key : String} {d : Document}
    (hkey : key ∈ fields) (h : setField c s (key, d) = .ok s') :
    TakesUp c fields s.given s'.given key d (fun d' => setField c s (key, d')) s' := by
  simp only [fields, List.mem_cons, List.not_mem_nil, or_false] at hkey
  rcases hkey with rfl | rfl | rfl
  · obtain ⟨hnew, path, hpath, rfl, -⟩ := giveOnce_ok h
    refine ⟨.value, ⟨rfl, Document.isSome_of_asText hpath⟩, rfl, ?_,
      fun hvalue => absurd rfl hvalue⟩
    simp [Keeps, RouteDraft.given, hnew]
  · obtain ⟨hnew, options, hoptions, rfl, hother⟩ := giveOnce_ok h
    refine ⟨.options options, hoptions, rfl, ?_, fun _ => hother⟩
    simp [Keeps, RouteDraft.given, hnew]
  · obtain ⟨hnew, routes, hroutes, rfl, hother⟩ := giveOnce_ok h
    refine ⟨.routes routes, hroutes, rfl, ?_, fun _ => hother⟩
    simp [Keeps, RouteDraft.given, hnew]

theorem take_unknown {c : Convention} {s : RouteDraft} {key : String} {d : Document}
    (hkey : key ∉ fields) : setField c s (key, d) = .error (.unknownField key fields) := by
  simp only [fields, List.mem_cons, List.not_mem_nil, or_false, not_or] at hkey
  rw [setField, if_neg hkey.1, if_neg hkey.2.1, if_neg hkey.2.2]

def fieldParts (r : Route) : List Part :=
  [.value, .options r.options, .routes r.routes]

theorem yields_of_finish {s : RouteDraft} {r : Route} (h : s.finish = .ok r) :
    Yields s.given r.fieldParts := by
  rw [RouteDraft.finish] at h
  split at h
  · cases h
  · cases h
    exact .cons (by simp) (.cons (yields_getD _ _ _) (.cons (yields_getD _ _ _) .nil))

/-- Routes are strict. -/
def schema : Schema Route where
  Draft := RouteDraft
  start := {}
  fields := fields
  name := recordName
  strict := true
  take := setField
  finish := RouteDraft.finish
  given := RouteDraft.given
  parts := fieldParts
  take_unknown hkey := take_unknown hkey
  take_ok hkey h := take_ok hkey h
  finish_ok h := yields_of_finish h

theorem setField_path (c : Convention) (d : Document) :
    setField c {} ("path", d) = d.asText.map fun path => ⟨some path, none, none⟩ := by
  rw [setField, if_pos rfl]
  cases d.asText <;> rfl

theorem setField_options (c : Convention) (path : Option String) (d : Document) :
    setField c ⟨path, none, none⟩ ("options", d) =
      (Options.decode d).map fun options => ⟨path, some options, none⟩ := by
  rw [setField, if_neg (by decide), if_pos rfl]
  cases Options.decode d <;> rfl

theorem setField_routes (c : Convention) (path : Option String) (options : Option Options)
    (d : Document) :
    setField c ⟨path, options, none⟩ ("routes", d) =
      (decodeAll c d).map fun routes => ⟨path, options, some routes⟩ := by
  rw [setField, if_neg (by decide), if_neg (by decide), if_pos rfl]
  cases decodeAll c d <;> rfl

theorem decodeItems_eq (c : Convention) {items : List Document} (h : items ≠ []) :
    decodeItems c items = schema.decode c (.list items) := by
  have hschema : schema.decode c (.list items) =
      (fields.zip items).foldlM (setField c) {} >>= fun s =>
        refuseExtra c (items.drop 3) >>= fun _ => s.finish := rfl
  rw [hschema]
  match items with
  | [] => exact absurd rfl h
  | [path] =>
      simp only [decodeItems, fields, List.zip_cons_cons, List.zip_nil_right, List.foldlM_cons,
        List.foldlM_nil, setField_path]
      cases path.asText <;> rfl
  | [path, options] =>
      simp only [decodeItems, fields, List.zip_cons_cons, List.zip_nil_right, List.foldlM_cons,
        List.foldlM_nil, setField_path]
      cases path.asText with
      | error fault => rfl
      | ok path =>
          simp only [Except.map, ok_bind, setField_options]
          cases Options.decode options <;> rfl
  | path :: options :: routes :: extra =>
      simp only [decodeItems, fields, List.zip_cons_cons, List.zip_nil_left, List.foldlM_cons,
        List.foldlM_nil, setField_path]
      cases path.asText with
      | error fault => rfl
      | ok path =>
          simp only [Except.map, ok_bind, setField_options]
          cases Options.decode options with
          | error fault => rfl
          | ok options =>
              simp only [Except.map, ok_bind, setField_routes]
              cases decodeAll c routes <;> rfl

/-- Only a list without items has a fault of its own. -/
theorem decode_eq (c : Convention) {d : Document} (h : d ≠ .list []) :
    decode c d = schema.decode c d := by
  cases d with
  | table entries =>
      rw [decode, decodeEntries_eq_foldlM]
      rfl
  | list items =>
      rw [decode]
      exact decodeItems_eq c fun hitems => h (congrArg _ hitems)
  | _ => rfl

theorem decode_table (c : Convention) (entries : List (String × Document)) :
    decode c (.table entries) = schema.decode c (.table entries) :=
  decode_eq c (by simp)

end Route

/-! ### Servers -/

/-- What each field is taken for, if it is given. -/
def ServerDraft.given (s : ServerDraft) : List (Option Part) :=
  [s.hostname.map fun _ => .value, s.options.map .options, s.routes.map .routes]

namespace Server

theorem take_ok {c : Convention} {s s' : ServerDraft} {key : String} {d : Document}
    (hkey : key ∈ fields) (h : setField c s (key, d) = .ok s') :
    TakesUp c fields s.given s'.given key d (fun d' => setField c s (key, d')) s' := by
  simp only [fields, List.mem_cons, List.not_mem_nil, or_false] at hkey
  rcases hkey with rfl | rfl | rfl
  · obtain ⟨hnew, hostname, hhostname, rfl, -⟩ := giveOnce_ok h
    refine ⟨.value, ⟨rfl, Document.isSome_of_asOptionalText hhostname⟩, rfl, ?_,
      fun hvalue => absurd rfl hvalue⟩
    simp [Keeps, ServerDraft.given, hnew]
  · obtain ⟨hnew, options, hoptions, rfl, hother⟩ := giveOnce_ok h
    refine ⟨.options options, hoptions, rfl, ?_, fun _ => hother⟩
    simp [Keeps, ServerDraft.given, hnew]
  · obtain ⟨hnew, routes, hroutes, rfl, hother⟩ := giveOnce_ok h
    refine ⟨.routes routes, hroutes, rfl, ?_, fun _ => hother⟩
    simp [Keeps, ServerDraft.given, hnew]

theorem take_unknown {c : Convention} {s : ServerDraft} {key : String} {d : Document}
    (hkey : key ∉ fields) : setField c s (key, d) = .error (.unknownField key fields) := by
  simp only [fields, List.mem_cons, List.not_mem_nil, or_false, not_or] at hkey
  rw [setField, if_neg hkey.1, if_neg hkey.2.1, if_neg hkey.2.2]

def fieldParts (s : Server) : List Part :=
  [.value, .options s.options, .routes s.routes]

theorem yields_finish (s : ServerDraft) : Yields s.given s.finish.fieldParts :=
  .cons (by simp) (.cons (yields_getD _ _ _) (.cons (yields_getD _ _ _) .nil))

/-- Servers are strict. -/
def schema : Schema Server where
  Draft := ServerDraft
  start := {}
  fields := fields
  name := recordName
  strict := true
  take := setField
  finish s := .ok s.finish
  given := ServerDraft.given
  parts := fieldParts
  take_unknown hkey := take_unknown hkey
  take_ok hkey h := take_ok hkey h
  finish_ok {s _} h := Except.ok.inj h ▸ yields_finish s

theorem decode_eq (c : Convention) (d : Document) : decode c d = schema.decode c d := by
  cases d <;> rfl

end Server

/-! ### Blueprints -/

/-- What each field is taken for, if it is given. -/
def BlueprintDraft.given (b : BlueprintDraft) : List (Option Part) :=
  [b.settings.map .settings, b.globals.map .options, b.http.map .options, b.servers.map .servers]

namespace Blueprint

theorem take_ok {c : Convention} {s s' : BlueprintDraft} {key : String} {d : Document}
    (hkey : key ∈ fields) (h : setField c s (key, d) = .ok s') :
    TakesUp c fields s.given s'.given key d (fun d' => setField c s (key, d')) s' := by
  simp only [fields, List.mem_cons, List.not_mem_nil, or_false] at hkey
  rcases hkey with rfl | rfl | rfl | rfl
  · obtain ⟨hnew, settings, hsettings, rfl, hother⟩ := giveOnce_ok h
    refine ⟨.settings settings, hsettings, rfl, ?_, fun _ => hother⟩
    simp [Keeps, BlueprintDraft.given, hnew]
  · obtain ⟨hnew, globals, hglobals, rfl, hother⟩ := giveOnce_ok h
    refine ⟨.options globals, hglobals, rfl, ?_, fun _ => hother⟩
    simp [Keeps, BlueprintDraft.given, hnew]
  · obtain ⟨hnew, http, hhttp, rfl, hother⟩ := giveOnce_ok h
    refine ⟨.options http, hhttp, rfl, ?_, fun _ => hother⟩
    simp [Keeps, BlueprintDraft.given, hnew]
  · obtain ⟨hnew, servers, hservers, rfl, hother⟩ := giveOnce_ok h
    refine ⟨.servers servers, hservers, rfl, ?_, fun _ => hother⟩
    simp [Keeps, BlueprintDraft.given, hnew]

theorem take_unknown {c : Convention} {s : BlueprintDraft} {key : String} {d : Document}
    (hkey : key ∉ fields) : setField c s (key, d) = .error (.unknownField key fields) := by
  simp only [fields, List.mem_cons, List.not_mem_nil, or_false, not_or] at hkey
  rw [setField, if_neg hkey.1, if_neg hkey.2.1, if_neg hkey.2.2.1, if_neg hkey.2.2.2]

def fieldParts (bp : Blueprint) : List Part :=
  [.settings bp.settings, .options bp.globals, .options bp.http, .servers bp.servers]

theorem yields_finish (s : BlueprintDraft) : Yields s.given s.finish.fieldParts :=
  .cons (yields_getD _ _ _) (.cons (yields_getD _ _ _)
    (.cons (yields_getD _ _ _) (.cons (yields_getD _ _ _) .nil)))

/-- Blueprints are strict. -/
def schema : Schema Blueprint where
  Draft := BlueprintDraft
  start := {}
  fields := fields
  name := recordName
  strict := true
  take := setField
  finish s := .ok s.finish
  given := BlueprintDraft.given
  parts := fieldParts
  take_unknown hkey := take_unknown hkey
  take_ok hkey h := take_ok hkey h
  finish_ok {s _} h := Except.ok.inj h ▸ yields_finish s

theorem decode_eq (c : Convention) (d : Document) : decode c d = schema.decode c d := by
  cases d <;> rfl

end Blueprint

/-! ## Lists of records -/

/-- An item among others comes out among the others. -/
theorem mapM_fill {α : Type} {decode : Document → Except Fault α} {after : List Document}
    {d : Document} :
    ∀ {before : List Document} {as : List α}, (before ++ d :: after).mapM decode = .ok as →
      ∃ a, as[before.length]? = some a ∧ decode d = .ok a
        ∧ ∀ fault? d', decode d' = outcome fault? a →
            (before ++ d' :: after).mapM decode = outcome fault? as
  | [], as, h => by
      rw [List.nil_append, List.mapM_cons] at h
      obtain ⟨a, ha, hrest⟩ := bind_eq_ok.mp h
      obtain ⟨as', has', has⟩ := bind_eq_ok.mp hrest
      cases has
      refine ⟨a, rfl, ha, fun fault? d' hd' => ?_⟩
      rw [List.nil_append, List.mapM_cons, hd', has']
      cases fault? <;> rfl
  | b :: before, as, h => by
      rw [List.cons_append, List.mapM_cons] at h
      obtain ⟨b', hb, hrest⟩ := bind_eq_ok.mp h
      obtain ⟨as', has', has⟩ := bind_eq_ok.mp hrest
      cases has
      obtain ⟨a, hget, ha, hother⟩ := mapM_fill has'
      refine ⟨a, by rw [List.length_cons, List.getElem?_cons_succ, hget], ha,
        fun fault? d' hd' => ?_⟩
      rw [List.cons_append, List.mapM_cons, hb, ok_bind, hother fault? d' hd']
      cases fault? <;> rfl

theorem Route.decodeList_eq_mapM (c : Convention) (items : List Document) :
    decodeList c items = items.mapM (decode c) := by
  induction items with
  | nil => rfl
  | cons d rest ih => rw [decodeList, List.mapM_cons, ih]

/-! ## Values -/

theorem isSome_of_valuesOf? {before after : List Document} {d : Document}
    (h : (valuesOf? (before ++ d :: after)).isSome) : (Value.ofDocument? d).isSome := by
  induction before with
  | nil =>
      rw [List.nil_append, valuesOf?] at h
      cases hd : Value.ofDocument? d with
      | none =>
          rw [hd] at h
          cases h
      | some v => rfl
  | cons b before ih =>
      rw [List.cons_append, valuesOf?] at h
      cases hb : Value.ofDocument? b with
      | none =>
          rw [hb] at h
          cases h
      | some v =>
          rw [hb, Option.isSome_map] at h
          exact ih h

theorem Value.ofDocument?_of_decode {d : Document} {v : Value} (h : decode d = .ok v) :
    ofDocument? d = some v := by
  rw [decode] at h
  split at h
  · next v' hv =>
      cases h
      exact hv
  · cases h

namespace Options

theorem keys_of_decodeEntries {entries : List (String × Document)} :
    ∀ {pairs : List (String × Value)}, decodeEntries entries = .ok pairs →
      pairs.map Prod.fst = entries.map Prod.fst := by
  induction entries with
  | nil =>
      intro pairs h
      cases h
      rfl
  | cons p rest ih =>
      intro pairs h
      rw [decodeEntries] at h
      obtain ⟨v, -, hrest⟩ := bind_eq_ok.mp h
      obtain ⟨pairs', hpairs', heq⟩ := bind_eq_ok.mp hrest
      cases heq
      rw [List.map_cons, List.map_cons, ih hpairs']

/-- An entry among others is an option among others. -/
theorem decodeEntries_fill {before after : List (String × Document)} {key : String}
    {d : Document} : ∀ {pairs : List (String × Value)},
      decodeEntries (before ++ (key, d) :: after) = .ok pairs →
        ∃ v l r, Value.ofDocument? d = some v ∧ pairs = l ++ (key, v) :: r
          ∧ r.map Prod.fst = after.map Prod.fst := by
  induction before with
  | nil =>
      intro pairs h
      rw [List.nil_append, decodeEntries] at h
      obtain ⟨v, hv, hrest⟩ := bind_eq_ok.mp h
      obtain ⟨rest, hpairs, heq⟩ := bind_eq_ok.mp hrest
      cases heq
      exact ⟨v, [], rest, Value.ofDocument?_of_decode hv, rfl, keys_of_decodeEntries hpairs⟩
  | cons p before ih =>
      intro pairs h
      rw [List.cons_append, decodeEntries] at h
      obtain ⟨u, -, hrest⟩ := bind_eq_ok.mp h
      obtain ⟨rest, hpairs, heq⟩ := bind_eq_ok.mp hrest
      cases heq
      obtain ⟨v, l, r, hv, rfl, hkeys⟩ := ih hpairs
      exact ⟨v, (p.1, u) :: l, r, hv, rfl, hkeys⟩

end Options

/-! ## From the whole to its parts -/

namespace Part

/-- What the part behind one step is taken for. -/
def behind : Part → Document.Frame → Part
  | blueprint bp, f => Blueprint.schema.behind bp f
  | settings s, f => Settings.schema.behind s f
  | server s, f => Server.schema.behind s f
  | route r, f => Route.schema.behind r f
  | servers ss, .item before _ => ((ss[before.length]?).map server).getD ignored
  | routes rs, .item before _ => ((rs[before.length]?).map route).getD ignored
  | ignored, _ => ignored
  | _, _ => value

/-- What the part in a place is taken for. -/
def follow : Part → Document.Place → Part
  | p, [] => p
  | p, f :: rest => (p.behind f).follow rest

variable {c : Convention}

/-- If a part is accepted, so is what stands behind one step into it. Another document in its
place has the same outcome for the part as it has there. -/
theorem of_fill {p : Part} {f : Document.Frame} {d : Document} (h : p.Of c (f.fill d)) :
    (p.behind f).Of c d
      ∧ (p.behind f ≠ value → ∀ fault? d', (p.behind f).Becomes c fault? d' →
          p.Becomes c fault? (f.fill d')) := by
  cases p with
  | blueprint bp => exact Schema.fill_of_eq (fun _ => Blueprint.decode_eq c _) h
  | settings s => exact Schema.fill_of_eq (fun _ => Settings.decode_eq c _) h
  | server s => exact Schema.fill_of_eq (fun _ => Server.decode_eq c _) h
  | route r =>
      -- A list that has an item is not the one that routes decode in their own way.
      have hfill (d : Document) : f.fill d ≠ .list [] := by
        cases f <;> simp [Document.Frame.fill]
      exact Schema.fill_of_eq (fun d => Route.decode_eq c (hfill d)) h
  | servers ss =>
      cases f with
      | entry before key after => cases h
      | item before after =>
          obtain ⟨s, hget, hs, hother⟩ := mapM_fill h
          have hbehind : (servers ss).behind (.item before after) = server s := by
            rw [behind, hget]
            rfl
          rw [hbehind]
          exact ⟨hs, fun _ => hother⟩
  | routes rs =>
      cases f with
      | entry before key after => cases h
      | item before after =>
          have hall (items : List Document) :
              Route.decodeAll c (.list items) = items.mapM (Route.decode c) := by
            rw [Route.decodeAll, Route.decodeList_eq_mapM]
          obtain ⟨r, hget, hr, hother⟩ := mapM_fill ((hall _).symm.trans h)
          have hbehind : (routes rs).behind (.item before after) = route r := by
            rw [behind, hget]
            rfl
          rw [hbehind]
          exact ⟨hr, fun _ fault? d' hd' => (hall _).trans (hother fault? d' hd')⟩
  | options o =>
      cases f with
      | entry before key after =>
          obtain ⟨pairs, hpairs, -⟩ := map_eq_ok.mp h
          obtain ⟨v, -, -, hv, -⟩ := Options.decodeEntries_fill hpairs
          exact ⟨⟨rfl, by rw [hv]; rfl⟩, fun hvalue => absurd rfl hvalue⟩
      | item before after => cases h
  | value =>
      cases f with
      | entry before key after => cases h.2
      | item before after =>
          have hitems := h.2
          rw [Document.Frame.fill, Value.ofDocument?, Option.isSome_map] at hitems
          exact ⟨⟨rfl, isSome_of_valuesOf? hitems⟩, fun hvalue => absurd rfl hvalue⟩
  | ignored => exact ⟨rfl, fun _ _ _ hd' => hd'⟩

theorem follow_value : ∀ place : Document.Place, value.follow place = value
  | [] => rfl
  | _ :: rest => follow_value rest

/-- **If a document is accepted, each part of it is accepted for what it is taken for.** -/
theorem of_follow {d : Document} :
    ∀ {place : Document.Place} {p : Part}, p.Of c (place.fill d) → (p.follow place).Of c d
  | [], _, h => h
  | _ :: _, _, h => by
      have hrest := of_follow (of_fill h).1
      exact hrest

/-- **What becomes of a part becomes of the whole.** If a part of a document that is accepted
is put in place of another and has a fault there, the whole has that fault; if it comes out as
what the other came out as, so does the whole. -/
theorem becomes_follow {d d' : Document} {fault? : Option Fault} :
    ∀ {place : Document.Place} {p : Part}, p.Of c (place.fill d) → p.follow place ≠ value →
      (p.follow place).Becomes c fault? d' → p.Becomes c fault? (place.fill d')
  | [], _, _, _, hd' => hd'
  | f :: rest, p, h, hvalue, hd' => by
      have hbehind : p.behind f ≠ value := fun hf => hvalue (by rw [follow, hf, follow_value])
      exact (of_fill h).2 hbehind fault? _ (becomes_follow (of_fill h).1 hvalue hd')

end Part

/-! ## Texts -/

namespace Blueprint

variable {format : Format} {s : String} {d : Document} {bp : Blueprint}

theorem parse_eq_ok (hread : format.read s = .ok d) :
    parse format s = .ok bp ↔ decode format.convention d = .ok bp := by
  rw [parse, Format.decode, hread]
  cases h : decode format.convention d <;> simp [h]

theorem parse_of_fault {fault : Fault} (hread : format.read s = .ok d)
    (h : decode format.convention d = .error fault) :
    parse format s =
      .error (.document format (if d.isReadable then .fault fault else .malformed)) := by
  rw [parse, Format.decode, hread]
  simp only [h]

end Blueprint

end NginxConfig
