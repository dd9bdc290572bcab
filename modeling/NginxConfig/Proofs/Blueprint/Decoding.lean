import NginxConfig.Blueprint.Document
import NginxConfig.Proofs.Fallible
import NginxConfig.Proofs.Table

/-!
# Blueprints out of their own documents

What the encoder leaves out are empty tables, empty lists and the names of hosts
that have none, and the decoder puts the same in for a field that is missing.
The kinds of option values are told apart by the form of the document alone, and
no two values have the same document. So decoding undoes encoding, whatever the
values are and whichever format the document goes through
(`Blueprint.decode_toDocument`).
-/

namespace NginxConfig

/-! ## Values -/

/-- An integer of 64 bits is taken for one. -/
theorem Value.ofInt_toInt (n : Int64) : Value.ofInt n.toInt = .int n := by
  have hlo : -Int.pow 2 63 ≤ n.toInt := Int64.le_toInt n
  have hhi : n.toInt < Int.pow 2 63 := Int64.toInt_lt n
  rw [Value.ofInt, if_pos ⟨hlo, hhi⟩, Int64.ofInt_toInt]

mutual

theorem Value.ofDocument?_toDocument : ∀ v : Value, Value.ofDocument? v.toDocument = some v
  | .empty => rfl
  | .bool _ => rfl
  | .int n => congrArg some (Value.ofInt_toInt n)
  | .float _ => rfl
  | .str _ => rfl
  | .list items => by
      rw [Value.toDocument, Value.ofDocument?, valuesOf?_documentsOf items, Option.map_some]

theorem valuesOf?_documentsOf : ∀ vs : List Value, valuesOf? (documentsOf vs) = some vs
  | [] => rfl
  | v :: rest => by
      rw [documentsOf, valuesOf?, Value.ofDocument?_toDocument v, valuesOf?_documentsOf rest]
      rfl

end

namespace Options

theorem decodeEntries_map_toDocument (pairs : List (String × Value)) :
    decodeEntries (pairs.map fun p => (p.1, p.2.toDocument)) = .ok pairs := by
  induction pairs with
  | nil => rfl
  | cons p rest ih =>
      have hvalue : Value.decode p.2.toDocument = .ok p.2 := by
        rw [Value.decode, Value.ofDocument?_toDocument]
      rw [List.map_cons, decodeEntries, hvalue, ok_bind, ih, ok_bind]
      rfl

/-- The options come back in their order. -/
theorem decode_toDocument (o : Options) : decode o.toDocument = .ok o := by
  have hlist : Table.ofList o.entries = o :=
    (Table.insertAll_eq_overlay ∅ o).trans (Table.empty_overlay o)
  rw [toDocument, decode, decodeEntries_map_toDocument]
  exact congrArg Except.ok hlist

end Options

/-! ## Fields that are left out -/

/-- What a document says of a field. -/
def given {α : Type} (absent : Bool) (a : α) : Option α :=
  if absent then none else some a

theorem given_getD {α : Type} {absent : Bool} {a default : α} (h : absent = true → a = default) :
    (given absent a).getD default = a := by
  cases absent with
  | true => exact (h rfl).symm
  | false => rfl

@[simp] theorem Options.given_getD (o : Options) : (given o.isEmpty o).getD ∅ = o :=
  NginxConfig.given_getD fun h => Table.ext (List.isEmpty_iff.mp h)

@[simp] theorem given_items_getD {α : Type} (items : List α) :
    (given items.isEmpty items).getD [] = items :=
  NginxConfig.given_getD List.isEmpty_iff.mp

/-- Whether a field is there or not, the others are taken up as if it were not. -/
theorem foldlM_given {δ α : Type} {step : δ → String × Document → Except Fault δ}
    (put : Option α → δ) {p : String × Document} {a : α}
    (h : step (put none) p = .ok (put (some a))) (absent : Bool)
    (rest : List (String × Document)) :
    ((if absent = true then [] else [p]) ++ rest).foldlM step (put none) =
      rest.foldlM step (put (given absent a)) := by
  cases absent with
  | true => rfl
  | false => rw [if_neg Bool.false_ne_true, List.singleton_append, List.foldlM_cons, h, ok_bind]; rfl

/-- A field that is given once. -/
theorem map_giveOnce {α δ : Type} {name : String} {d : Except Fault α} {a : α} (h : d = .ok a)
    (put : Option α → δ) : (giveOnce name none d).map put = .ok (put (some a)) := by
  rw [h]
  rfl

/-! ## Settings -/

theorem Document.word?_toNat (n : UInt32) : word? n.toNat = some n := by
  have hhi : (n.toNat : Int) < Int.pow 2 32 := Int.ofNat_lt.mpr n.toNat_lt
  rw [word?, if_pos ⟨Int.natCast_nonneg _, hhi⟩, Int.toNat_natCast, UInt32.ofNat_toNat]

theorem WorkerProcesses.decode_toDocument (w : WorkerProcesses) : decode w.toDocument = .ok w := by
  cases w with
  | auto => rfl
  | count n => rw [toDocument, decode, Document.word?_toNat]

/-- All four fields, one after the other. -/
theorem Settings.decode_fields (convention : Convention) {s : Settings}
    {processes connections : Document} (hprocesses : WorkerProcesses.decode processes =
      .ok s.workerProcesses) (hconnections : connections.asWord = .ok s.workerConnections) :
    decode convention (.table [("worker_processes", processes), ("worker_connections", connections),
      ("error_log", .text s.errorLog), ("daemon", .bool s.daemon)]) = .ok s := by
  simp only [decode, List.foldlM_cons, List.foldlM_nil, SettingsDraft.set, hprocesses,
    hconnections, Document.asText, Document.asBool, Except.map, Option.isSome_none,
    Bool.false_eq_true, if_false, ok_bind, pure_eq_ok]
  rfl

theorem Settings.decode_toDocument (convention : Convention) (s : Settings) :
    decode convention s.toDocument = .ok s := by
  have hconnections : (Document.int s.workerConnections.toNat).asWord =
      .ok s.workerConnections := by
    rw [Document.asWord, Document.word?_toNat]
  exact decode_fields convention (WorkerProcesses.decode_toDocument _) hconnections

/-! ## Routes -/

namespace Route

/-- Takes up one field. -/
def setField (convention : Convention) (r : RouteDraft) (p : String × Document) :
    Except Fault RouteDraft :=
  let (key, d) := p
  if key = "path" then
    (giveOnce key r.path d.asText).map fun path => { r with path }
  else if key = "options" then
    (giveOnce key r.options (Options.decode d)).map fun options => { r with options }
  else if key = "routes" then
    (giveOnce key r.routes (decodeAll convention d)).map fun routes => { r with routes }
  else .error (.unknownField key fields)

/-- The fields of a route are taken up one after the other, as those of other
records are. -/
theorem decodeEntries_eq_foldlM (convention : Convention) (entries : List (String × Document))
    (r : RouteDraft) :
    decodeEntries convention r entries = entries.foldlM (setField convention) r := by
  induction entries generalizing r with
  | nil => rfl
  | cons p rest ih =>
      obtain ⟨key, d⟩ := p
      rw [decodeEntries, List.foldlM_cons, setField]
      split
      · cases giveOnce key r.path d.asText with
        | error fault => rfl
        | ok path => exact ih _
      split
      · cases giveOnce key r.options (Options.decode d) with
        | error fault => rfl
        | ok options => exact ih _
      split
      · cases giveOnce key r.routes (decodeAll convention d) with
        | error fault => rfl
        | ok routes => exact ih _
      · rfl

end Route

mutual

theorem Route.decode_toDocument (convention : Convention) :
    ∀ r : Route, decode convention r.toDocument = .ok r
  | .mk path options routes => by
      have hroutes : decodeAll convention (.list (documentsOf routes)) = .ok routes :=
        decodeList_documentsOf convention routes
      have hfields : decodeEntries convention {} (("path", .text path) ::
          (if options.isEmpty then [] else [("options", options.toDocument)]) ++
          (if routes.isEmpty then [] else [("routes", .list (documentsOf routes))])) =
          .ok ⟨some path, given options.isEmpty options, given routes.isEmpty routes⟩ := by
        rw [decodeEntries_eq_foldlM, List.cons_append, List.foldlM_cons,
          ← List.append_nil (if routes.isEmpty then [] else _)]
        refine (foldlM_given (fun o => (⟨some path, o, none⟩ : RouteDraft))
          (map_giveOnce (Options.decode_toDocument options) _) _ _).trans ?_
        refine (foldlM_given (fun rs => (⟨some path, given options.isEmpty options, rs⟩ : RouteDraft))
          (map_giveOnce hroutes _) _ _).trans ?_
        rfl
      rw [Route.toDocument, Route.decode, hfields, ok_bind, RouteDraft.finish]
      simp only [Options.given_getD, given_items_getD]

theorem Route.decodeList_documentsOf (convention : Convention) :
    ∀ rs : List Route, decodeList convention (documentsOf rs) = .ok rs
  | [] => rfl
  | r :: rest => by
      rw [Route.documentsOf, decodeList, Route.decode_toDocument convention r, ok_bind,
        Route.decodeList_documentsOf convention rest]
      rfl

end

/-! ## Servers and blueprints -/

/-- The field of the host name, if there is one. -/
def Server.hostField (s : Server) : List (String × Document) :=
  match s.hostname with
  | some hostname => [("hostname", .text hostname)]
  | none => []

theorem Server.decode_toDocument (convention : Convention) (s : Server) :
    decode convention s.toDocument = .ok s := by
  have hroutes : Route.decodeAll convention (.list (Route.documentsOf s.routes)) = .ok s.routes :=
    Route.decodeList_documentsOf convention s.routes
  have hhost (rest : List (String × Document)) :
      (s.hostField ++ rest).foldlM (setField convention) {} =
        rest.foldlM (setField convention) ⟨s.hostname.map some, none, none⟩ := by
    rw [hostField]
    cases s.hostname <;> rfl
  have hfields : (s.hostField ++
      (if s.options.isEmpty then [] else [("options", s.options.toDocument)]) ++
      (if s.routes.isEmpty then [] else [("routes", Document.list (Route.documentsOf s.routes))])).foldlM
        (setField convention) {} =
      .ok ⟨s.hostname.map some, given s.options.isEmpty s.options,
        given s.routes.isEmpty s.routes⟩ := by
    rw [List.append_assoc, hhost, ← List.append_nil (if s.routes.isEmpty then [] else _)]
    refine (foldlM_given (fun o => (⟨s.hostname.map some, o, none⟩ : ServerDraft))
      (map_giveOnce (Options.decode_toDocument s.options) _) _ _).trans ?_
    refine (foldlM_given
      (fun rs => (⟨s.hostname.map some, given s.options.isEmpty s.options, rs⟩ : ServerDraft))
      (map_giveOnce hroutes _) _ _).trans ?_
    rfl
  refine (congrArg (· >>= fun draft => .ok draft.finish) hfields).trans ?_
  have hhostname : (s.hostname.map some).getD none = s.hostname := by
    cases s.hostname <;> rfl
  simp only [ok_bind, ServerDraft.finish, hhostname, Options.given_getD, given_items_getD]

theorem Server.mapM_decode_toDocument (convention : Convention) (servers : List Server) :
    (servers.map toDocument).mapM (decode convention) = .ok servers := by
  induction servers with
  | nil => rfl
  | cons s rest ih =>
      rw [List.map_cons, List.mapM_cons, s.decode_toDocument, ok_bind, ih, ok_bind]
      rfl

/-- **A blueprint comes back from its document**, with the options of all its
tables in their order. -/
theorem Blueprint.decode_toDocument (convention : Convention) (bp : Blueprint) :
    decode convention bp.toDocument = .ok bp := by
  have hservers : Server.decodeAll convention (.list (bp.servers.map Server.toDocument)) =
      .ok bp.servers :=
    Server.mapM_decode_toDocument convention bp.servers
  have hfields : ([("settings", bp.settings.toDocument)] ++
      (if bp.globals.isEmpty then [] else [("globals", bp.globals.toDocument)]) ++
      (if bp.http.isEmpty then [] else [("http", bp.http.toDocument)]) ++
      (if bp.servers.isEmpty then []
        else [("servers", Document.list (bp.servers.map Server.toDocument))])).foldlM
          (setField convention) {} =
      .ok ⟨some bp.settings, given bp.globals.isEmpty bp.globals, given bp.http.isEmpty bp.http,
        given bp.servers.isEmpty bp.servers⟩ := by
    have hsettings : setField convention {} ("settings", bp.settings.toDocument) =
        .ok ⟨some bp.settings, none, none, none⟩ :=
      map_giveOnce (Settings.decode_toDocument convention bp.settings) _
    rw [List.append_assoc, List.append_assoc, List.singleton_append, List.foldlM_cons, hsettings,
      ok_bind, ← List.append_nil (if bp.servers.isEmpty then [] else _)]
    refine (foldlM_given (fun o => (⟨some bp.settings, o, none, none⟩ : BlueprintDraft))
      (map_giveOnce (Options.decode_toDocument bp.globals) _) _ _).trans ?_
    refine (foldlM_given
      (fun o => (⟨some bp.settings, given bp.globals.isEmpty bp.globals, o, none⟩ : BlueprintDraft))
      (map_giveOnce (Options.decode_toDocument bp.http) _) _ _).trans ?_
    refine (foldlM_given
      (fun ss => (⟨some bp.settings, given bp.globals.isEmpty bp.globals,
        given bp.http.isEmpty bp.http, ss⟩ : BlueprintDraft))
      (map_giveOnce hservers _) _ _).trans ?_
    rfl
  rw [toDocument, decode, hfields, ok_bind, BlueprintDraft.finish]
  simp only [Options.given_getD, given_items_getD, Option.getD_some]
  rfl

end NginxConfig
