import NginxConfig.Proofs.Blueprint.Compile
import NginxConfig.Proofs.Blueprint.Decoding
import NginxConfig.Proofs.Json.RoundTrip
import NginxConfig.Proofs.Toml.RoundTrip
import NginxConfig.Source

/-!
# Blueprints through texts

The document of a blueprint without floating point numbers is plain, and its
tables are in layers: in each record the values stand before the tables, options
are values only, and a table that has no value in it is never written under a
key of its own. So both formats give the document back from its text, and the
blueprint with it. What TOML cannot write are empty values, which are nulls in
the document (`Blueprint.round_trip`).
-/

namespace NginxConfig

/-! ## What option values are made of -/

namespace Value

mutual

/-- The value and everything in it. -/
def parts : Value → List Value
  | .list items => .list items :: partsOfAll items
  | v => [v]

def partsOfAll : List Value → List Value
  | [] => []
  | v :: rest => v.parts ++ partsOfAll rest

end

end Value

/-- All values of a table and everything in them. -/
def Options.parts (o : Options) : List Value :=
  Value.partsOfAll (o.entries.map Prod.snd)

namespace Route

mutual

/-- The option tables of a route and of all routes in it. -/
def tables : Route → List Options
  | mk _ options routes => options :: tablesOfAll routes

def tablesOfAll : List Route → List Options
  | [] => []
  | r :: rest => r.tables ++ tablesOfAll rest

end

end Route

namespace Blueprint

/-- The option tables of a blueprint. -/
def tables (bp : Blueprint) : List Options :=
  bp.globals :: bp.http :: bp.servers.flatMap fun s => s.options :: Route.tablesOfAll s.routes

/-- All option values of a blueprint and everything in them. -/
def parts (bp : Blueprint) : List Value :=
  bp.tables.flatMap Options.parts

end Blueprint

/-! ## Documents that both formats can hold -/

open Toml (IsInline AllInline Layered Placed Sorted hasHeader isTable)

/-- A plain document in layers. -/
structure Tidy (d : Document) : Prop where
  plain : d.IsPlain
  layered : Layered d

/-- A tidy document as a field of a record, under a header or not. -/
structure IsField (header : Bool) (d : Document) : Prop where
  header_eq : hasHeader d = header
  placed : Placed d
  tidy : Tidy d

namespace Tidy

theorem table {entries : List (String × Document)} (hsorted : Sorted entries)
    (h : ∀ p ∈ entries, ∃ header, IsField header p.2) : Tidy (.table entries) := by
  constructor
  · rw [Document.IsPlain, Document.entriesPlain_iff]
    intro p hp
    obtain ⟨header, hfield⟩ := h p hp
    exact hfield.tidy.plain
  · rw [Layered, Toml.layeredEntries_iff]
    refine ⟨hsorted, fun p hp => ?_⟩
    obtain ⟨header, hfield⟩ := h p hp
    exact ⟨hfield.placed, hfield.tidy.layered⟩

theorem list {items : List Document} (h : ∀ d ∈ items, Tidy d) : Tidy (.list items) := by
  constructor
  · rw [Document.IsPlain, Document.allPlain_iff]
    exact fun d hd => (h d hd).plain
  · rw [Layered, Toml.layeredAll_iff]
    exact fun d hd => (h d hd).layered

end Tidy

/-! ## Values and options -/

namespace Value

mutual

theorem tidy_toDocument : ∀ v : Value, (∀ x, .float x ∉ v.parts) → Tidy v.toDocument
  | .empty | .bool _ | .str _ => fun _ => by
      constructor <;> simp only [toDocument, Document.IsPlain, Layered]
  | .int n => fun _ => by
      constructor
      · rw [toDocument, Document.IsPlain]
        exact ⟨Int64.le_toInt n, Int64.toInt_lt n⟩
      · simp only [toDocument, Layered]
  | .float x => fun h => by
      refine absurd ?_ (h x)
      simp only [parts, List.mem_singleton]
  | .list items => fun h => by
      rw [toDocument]
      refine Tidy.list (tidy_documentsOf items fun x hx => h x ?_)
      rw [parts]
      exact List.mem_cons_of_mem _ hx

theorem tidy_documentsOf : ∀ vs : List Value, (∀ x, .float x ∉ partsOfAll vs) →
    ∀ d ∈ documentsOf vs, Tidy d
  | [] => fun _ d hd => by
      rw [documentsOf] at hd
      exact nomatch hd
  | v :: rest => fun h d hd => by
      rw [partsOfAll] at h
      rw [documentsOf, List.mem_cons] at hd
      rcases hd with rfl | hd
      · exact tidy_toDocument v fun x hx => h x (List.mem_append_left _ hx)
      · exact tidy_documentsOf rest (fun x hx => h x (List.mem_append_right _ hx)) d hd

end

mutual

theorem isInline_toDocument : ∀ v : Value, IsInline v.toDocument
  | .empty | .bool _ | .int _ | .float _ | .str _ => by simp only [toDocument, IsInline]
  | .list items => by
      rw [toDocument, IsInline]
      exact allInline_documentsOf items

theorem allInline_documentsOf : ∀ vs : List Value, AllInline (documentsOf vs)
  | [] => by rw [documentsOf, AllInline]; trivial
  | v :: rest => by
      rw [documentsOf, AllInline]
      exact ⟨isInline_toDocument v, allInline_documentsOf rest⟩

end

theorem isTable_toDocument (v : Value) : isTable v.toDocument = false := by
  cases v <;> simp only [toDocument, isTable]

theorem hasHeader_toDocument (v : Value) : hasHeader v.toDocument = false := by
  cases v with
  | list items =>
      cases items with
      | nil => simp [toDocument, documentsOf, hasHeader]
      | cons v rest => simp [toDocument, documentsOf, hasHeader, isTable_toDocument]
  | _ => simp only [toDocument, hasHeader]

theorem placed_toDocument (v : Value) : Placed v.toDocument := by
  have hinline := v.isInline_toDocument
  cases hd : v.toDocument with
  | table entries =>
      rw [hd, IsInline] at hinline
      exact hinline.elim
  | _ =>
      rw [hd] at hinline
      exact fun _ => hinline

mutual

/-- The nulls of a document are empty values. -/
theorem hasNull_toDocument : ∀ v : Value, v.toDocument.HasNull ↔ .empty ∈ v.parts
  | .empty => by simp [toDocument, parts, Document.HasNull]
  | .bool _ | .int _ | .float _ | .str _ => by simp [toDocument, parts, Document.HasNull]
  | .list items => by
      rw [toDocument, parts, Document.HasNull, anyNull_documentsOf items]
      simp

theorem anyNull_documentsOf : ∀ vs : List Value,
    Document.AnyNull (documentsOf vs) ↔ .empty ∈ partsOfAll vs
  | [] => by simp [documentsOf, partsOfAll, Document.AnyNull]
  | v :: rest => by
      rw [documentsOf, partsOfAll, Document.AnyNull, hasNull_toDocument v,
        anyNull_documentsOf rest, List.mem_append]

end

theorem isField_toDocument {v : Value} (hfloat : ∀ x, .float x ∉ v.parts) :
    IsField false v.toDocument :=
  ⟨v.hasHeader_toDocument, v.placed_toDocument, v.tidy_toDocument hfloat⟩

end Value

namespace Options

theorem isField_entries {entries : List (String × Value)}
    (hfloat : ∀ x, .float x ∉ Value.partsOfAll (entries.map Prod.snd)) :
    ∀ p ∈ entries.map fun p => (p.1, p.2.toDocument), IsField false p.2 := by
  induction entries with
  | nil => exact List.forall_mem_nil _
  | cons p rest ih =>
      rw [List.map_cons, Value.partsOfAll] at hfloat
      rw [List.map_cons, List.forall_mem_cons]
      exact ⟨Value.isField_toDocument fun x hx => hfloat x (List.mem_append_left _ hx),
        ih fun x hx => hfloat x (List.mem_append_right _ hx)⟩

/-- A table of options has a header: there is nothing in it but values. -/
theorem isField_toDocument {o : Options} (hfloat : ∀ x, .float x ∉ o.parts) :
    IsField true o.toDocument := by
  have hentries := isField_entries hfloat
  refine ⟨rfl, ?_, Tidy.table ⟨?_, ?_⟩ fun p hp => ⟨false, hentries p hp⟩⟩
  · rw [toDocument, Placed]
    cases h : o.entries with
    | nil => exact Or.inl rfl
    | cons p rest => exact Or.inr ⟨_, List.mem_cons_self, p.2.hasHeader_toDocument⟩
  · rw [List.map_map]
    exact o.keys_nodup
  · refine List.pairwise_map.mpr (List.pairwise_of_forall fun p q hp => ?_)
    rw [Value.hasHeader_toDocument] at hp
    exact absurd hp Bool.false_ne_true

theorem hasNull_toDocument (o : Options) : o.toDocument.HasNull ↔ .empty ∈ o.parts := by
  rw [toDocument, parts, Document.HasNull]
  induction o.entries with
  | nil => simp [Document.EntriesNull, Value.partsOfAll]
  | cons p rest ih =>
      rw [List.map_cons, List.map_cons, Value.partsOfAll, Document.EntriesNull, ih,
        Value.hasNull_toDocument, List.mem_append]

end Options

/-! ## Records -/

/-- Fields whose values stand before their tables. -/
theorem tidy_append {values tables : List (String × Document)}
    (hkeys : ((values ++ tables).map Prod.fst).Nodup) (hvalues : ∀ p ∈ values, IsField false p.2)
    (htables : ∀ p ∈ tables, IsField true p.2) : Tidy (.table (values ++ tables)) := by
  refine Tidy.table ⟨hkeys, List.pairwise_append.mpr ⟨?_, ?_, ?_⟩⟩ fun p hp => ?_
  · refine List.Pairwise.imp_of_mem (fun hp _ _ h => ?_) (List.pairwise_of_forall fun _ _ => trivial)
    rw [(hvalues _ hp).header_eq] at h
    exact absurd h Bool.false_ne_true
  · exact List.Pairwise.imp_of_mem (fun _ hq _ _ => (htables _ hq).header_eq)
      (List.pairwise_of_forall fun _ _ => trivial)
  · exact fun _ _ q hq _ => (htables q hq).header_eq
  · rcases List.mem_append.mp hp with hp | hp
    · exact ⟨false, hvalues p hp⟩
    · exact ⟨true, htables p hp⟩

/-- A field that is left out where it is empty. -/
def optionalField (absent : Bool) (key : String) (d : Document) : List (String × Document) :=
  if absent then [] else [(key, d)]

theorem mem_optionalField {absent : Bool} {key : String} {d : Document} {p : String × Document} :
    p ∈ optionalField absent key d ↔ absent = false ∧ p = (key, d) := by
  cases absent <;> simp [optionalField]

theorem keys_optionalField (absent : Bool) (key : String) (d : Document) :
    ((optionalField absent key d).map Prod.fst).Sublist [key] := by
  cases absent <;> simp [optionalField]

/-- What is left out has no null in it. -/
theorem entriesNull_optionalField {absent : Bool} {key : String} {d : Document}
    (h : absent = true → ¬ d.HasNull) :
    Document.EntriesNull (optionalField absent key d) ↔ d.HasNull := by
  cases absent with
  | true => simp [optionalField, Document.EntriesNull, h rfl]
  | false => simp [optionalField, Document.EntriesNull]

theorem Options.parts_of_isEmpty {o : Options} (h : o.isEmpty = true) : o.parts = [] := by
  rw [parts, List.isEmpty_iff.mp h]
  rfl

theorem Options.entriesNull_field (key : String) (o : Options) :
    Document.EntriesNull (optionalField o.isEmpty key o.toDocument) ↔ .empty ∈ o.parts := by
  rw [entriesNull_optionalField, o.hasNull_toDocument]
  intro h
  rw [o.hasNull_toDocument, parts_of_isEmpty h]
  exact List.not_mem_nil

theorem Options.isField_of_mem {key : String} {o : Options} (hfloat : ∀ x, .float x ∉ o.parts)
    {p : String × Document} (hp : p ∈ optionalField o.isEmpty key o.toDocument) :
    IsField true p.2 := by
  obtain ⟨-, rfl⟩ := mem_optionalField.mp hp
  exact isField_toDocument hfloat

/-- A list of records is written under headers, one for each. -/
theorem isField_of_mem_rows {key : String} {items : List Document}
    (htables : ∀ d ∈ items, isTable d = true) (h : ∀ d ∈ items, Tidy d) {p : String × Document}
    (hp : p ∈ optionalField items.isEmpty key (.list items)) : IsField true p.2 := by
  obtain ⟨hne, rfl⟩ := mem_optionalField.mp hp
  have hheader : hasHeader (.list items) = true :=
    Toml.hasHeader_list.mpr ⟨List.isEmpty_eq_false_iff.mp hne, htables⟩
  refine ⟨hheader, fun hvalue => ?_, Tidy.list h⟩
  rw [hheader] at hvalue
  cases hvalue

/-! ## Settings -/

theorem isField_text (s : String) : IsField false (.text s) :=
  ⟨rfl, fun _ => by simp only [IsInline], by simp only [Document.IsPlain], by simp only [Layered]⟩

theorem isField_bool (b : Bool) : IsField false (.bool b) :=
  ⟨rfl, fun _ => by simp only [IsInline], by simp only [Document.IsPlain], by simp only [Layered]⟩

theorem isField_word (n : UInt32) : IsField false (.int n.toNat) := by
  refine ⟨rfl, fun _ => by simp only [IsInline], ?_, by simp only [Layered]⟩
  rw [Document.IsPlain]
  exact Document.inRange_word n

namespace Settings

theorem isField_toDocument (s : Settings) : IsField true s.toDocument := by
  have hprocesses : IsField false s.workerProcesses.toDocument := by
    cases s.workerProcesses with
    | auto => exact isField_text "auto"
    | count n => exact isField_word n
  have hfields : ∀ p ∈ [("worker_processes", s.workerProcesses.toDocument),
      ("worker_connections", .int s.workerConnections.toNat), ("error_log", .text s.errorLog),
      ("daemon", .bool s.daemon)], IsField false p.2 := by
    simp only [List.forall_mem_cons]
    exact ⟨hprocesses, isField_word _, isField_text _, isField_bool _, List.forall_mem_nil _⟩
  refine ⟨rfl, Or.inr ⟨("daemon", .bool s.daemon), by simp, rfl⟩, ?_⟩
  rw [toDocument, ← List.append_nil [_, _, _, _]]
  exact tidy_append (by simp) hfields (List.forall_mem_nil _)

theorem not_hasNull_toDocument (s : Settings) : ¬ s.toDocument.HasNull := by
  have hprocesses : ¬ s.workerProcesses.toDocument.HasNull := by
    cases s.workerProcesses <;> simp [WorkerProcesses.toDocument, Document.HasNull]
  simp [toDocument, Document.HasNull, Document.EntriesNull, hprocesses]

end Settings

/-! ## Routes and servers -/

/-- The fields that routes and servers share. -/
def scopeFields (options : Options) (routes : List Route) : List (String × Document) :=
  optionalField options.isEmpty "options" options.toDocument ++
    optionalField routes.isEmpty "routes" (.list (Route.documentsOf routes))

namespace Route

theorem toDocument_eq (path : String) (options : Options) (routes : List Route) :
    (mk path options routes).toDocument =
      .table ([("path", .text path)] ++ scopeFields options routes) := by
  rw [toDocument]
  rfl

theorem isEmpty_documentsOf (routes : List Route) :
    (documentsOf routes).isEmpty = routes.isEmpty := by
  cases routes <;> rfl

theorem isTable_of_mem_documentsOf {routes : List Route} :
    ∀ d ∈ documentsOf routes, isTable d = true := by
  induction routes with
  | nil => exact List.forall_mem_nil _
  | cons r rest ih =>
      rw [documentsOf, List.forall_mem_cons]
      refine ⟨?_, ih⟩
      cases r with
      | mk path options routes => rw [toDocument_eq]; rfl

end Route

theorem isField_of_mem_scopeFields {options : Options} {routes : List Route}
    (hfloat : ∀ x, .float x ∉ options.parts) (hroutes : ∀ d ∈ Route.documentsOf routes, Tidy d) :
    ∀ p ∈ scopeFields options routes, IsField true p.2 := by
  intro p hp
  rcases List.mem_append.mp hp with hp | hp
  · exact Options.isField_of_mem hfloat hp
  · rw [← Route.isEmpty_documentsOf] at hp
    exact isField_of_mem_rows Route.isTable_of_mem_documentsOf hroutes hp

theorem keys_scopeFields (options : Options) (routes : List Route) :
    ((scopeFields options routes).map Prod.fst).Sublist ["options", "routes"] := by
  rw [scopeFields, List.map_append]
  exact (keys_optionalField _ _ _).append (keys_optionalField _ _ _)

theorem entriesNull_scopeFields (options : Options) (routes : List Route) :
    Document.EntriesNull (scopeFields options routes) ↔
      .empty ∈ options.parts ∨ Document.AnyNull (Route.documentsOf routes) := by
  rw [scopeFields, Document.entriesNull_append, Options.entriesNull_field,
    entriesNull_optionalField, Document.HasNull]
  intro h
  rw [List.isEmpty_iff.mp h, Document.HasNull]
  exact id

/-- A record of values before its options and its routes. -/
theorem tidy_scope {values : List (String × Document)} {options : Options} {routes : List Route}
    (hkeys : (values.map Prod.fst ++ ["options", "routes"]).Nodup)
    (hvalues : ∀ p ∈ values, IsField false p.2) (hfloat : ∀ x, .float x ∉ options.parts)
    (hroutes : ∀ d ∈ Route.documentsOf routes, Tidy d) :
    Tidy (.table (values ++ scopeFields options routes)) := by
  refine tidy_append ?_ hvalues (isField_of_mem_scopeFields hfloat hroutes)
  rw [List.map_append]
  exact hkeys.sublist ((keys_scopeFields options routes).append_left _)

namespace Route

mutual

theorem tidy_toDocument : ∀ r : Route, (∀ o ∈ r.tables, ∀ x, .float x ∉ o.parts) →
    Tidy r.toDocument
  | .mk path options routes => fun hfloat => by
      rw [tables, List.forall_mem_cons] at hfloat
      rw [toDocument_eq]
      refine tidy_scope (by simp) ?_ hfloat.1 (tidy_documentsOf routes hfloat.2)
      exact List.forall_mem_singleton.mpr (isField_text path)

theorem tidy_documentsOf : ∀ rs : List Route,
    (∀ o ∈ tablesOfAll rs, ∀ x, .float x ∉ o.parts) → ∀ d ∈ documentsOf rs, Tidy d
  | [] => fun _ d hd => by
      rw [documentsOf] at hd
      exact nomatch hd
  | r :: rest => fun hfloat => by
      rw [tablesOfAll, List.forall_mem_append] at hfloat
      rw [documentsOf, List.forall_mem_cons]
      exact ⟨tidy_toDocument r hfloat.1, tidy_documentsOf rest hfloat.2⟩

end

mutual

theorem hasNull_toDocument : ∀ r : Route,
    r.toDocument.HasNull ↔ ∃ o ∈ r.tables, .empty ∈ o.parts
  | .mk path options routes => by
      rw [toDocument_eq, tables, Document.HasNull, Document.entriesNull_append,
        entriesNull_scopeFields, anyNull_documentsOf routes]
      simp [Document.EntriesNull, Document.HasNull]

theorem anyNull_documentsOf : ∀ rs : List Route,
    Document.AnyNull (documentsOf rs) ↔ ∃ o ∈ tablesOfAll rs, .empty ∈ o.parts
  | [] => by simp [documentsOf, tablesOfAll, Document.AnyNull]
  | r :: rest => by
      rw [documentsOf, tablesOfAll, Document.AnyNull, hasNull_toDocument r,
        anyNull_documentsOf rest]
      simp [or_and_right, exists_or]

end

end Route

namespace Server

theorem toDocument_eq (s : Server) :
    s.toDocument = .table (s.hostField ++ scopeFields s.options s.routes) := by
  rw [toDocument, List.append_assoc]
  rfl

theorem tidy_toDocument {s : Server}
    (hfloat : ∀ o ∈ s.options :: Route.tablesOfAll s.routes, ∀ x, .float x ∉ o.parts) :
    Tidy s.toDocument := by
  rw [List.forall_mem_cons] at hfloat
  rw [toDocument_eq]
  refine tidy_scope ?_ ?_ hfloat.1 (Route.tidy_documentsOf s.routes hfloat.2)
  · rw [hostField]
    cases s.hostname <;> simp
  · rw [hostField]
    cases s.hostname with
    | none => exact List.forall_mem_nil _
    | some hostname => exact List.forall_mem_singleton.mpr (isField_text hostname)

theorem hasNull_toDocument (s : Server) :
    s.toDocument.HasNull ↔ ∃ o ∈ s.options :: Route.tablesOfAll s.routes, .empty ∈ o.parts := by
  have hhost : ¬ Document.EntriesNull s.hostField := by
    rw [hostField]
    cases s.hostname <;> simp [Document.EntriesNull, Document.HasNull]
  rw [toDocument_eq, Document.HasNull, Document.entriesNull_append, entriesNull_scopeFields,
    Route.anyNull_documentsOf]
  simp [hhost]

theorem anyNull_map_toDocument (servers : List Server) :
    Document.AnyNull (servers.map toDocument) ↔
      ∃ o ∈ servers.flatMap (fun s => s.options :: Route.tablesOfAll s.routes), .empty ∈ o.parts := by
  induction servers with
  | nil => simp [Document.AnyNull]
  | cons s rest ih =>
      rw [List.map_cons, List.flatMap_cons, Document.AnyNull, ih, s.hasNull_toDocument]
      simp [or_and_right, exists_or, or_assoc]

end Server

/-! ## Blueprints -/

namespace Blueprint

theorem toDocument_eq (bp : Blueprint) :
    bp.toDocument = .table (("settings", bp.settings.toDocument) ::
      (optionalField bp.globals.isEmpty "globals" bp.globals.toDocument ++
        optionalField bp.http.isEmpty "http" bp.http.toDocument ++
        optionalField bp.servers.isEmpty "servers" (.list (bp.servers.map Server.toDocument)))) :=
  rfl

theorem mem_parts {bp : Blueprint} {v : Value} :
    v ∈ bp.parts ↔ v ∈ bp.globals.parts ∨ v ∈ bp.http.parts
      ∨ ∃ o ∈ bp.servers.flatMap (fun s => s.options :: Route.tablesOfAll s.routes), v ∈ o.parts := by
  rw [parts, tables, List.flatMap_cons, List.flatMap_cons, List.mem_append, List.mem_append,
    List.mem_flatMap]

theorem tidy_toDocument {bp : Blueprint} (hfloat : ∀ x, .float x ∉ bp.parts) :
    Tidy bp.toDocument := by
  simp only [mem_parts, not_or, not_exists, not_and] at hfloat
  have hservers : ∀ d ∈ bp.servers.map Server.toDocument, Tidy d := by
    rw [List.forall_mem_map]
    exact fun s hs => Server.tidy_toDocument fun o ho x =>
      (hfloat x).2.2 o (List.mem_flatMap.mpr ⟨s, hs, ho⟩)
  have htables : ∀ d ∈ bp.servers.map Server.toDocument, isTable d = true := by
    rw [List.forall_mem_map]
    exact fun s _ => rfl
  have hempty : bp.servers.isEmpty = (bp.servers.map Server.toDocument).isEmpty :=
    List.isEmpty_map.symm
  have hfields : ∀ p ∈ ("settings", bp.settings.toDocument) ::
      (optionalField bp.globals.isEmpty "globals" bp.globals.toDocument ++
        optionalField bp.http.isEmpty "http" bp.http.toDocument ++
        optionalField bp.servers.isEmpty "servers" (.list (bp.servers.map Server.toDocument))),
      IsField true p.2 := by
    rw [List.forall_mem_cons, List.forall_mem_append, List.forall_mem_append, hempty]
    exact ⟨bp.settings.isField_toDocument,
      ⟨fun p hp => Options.isField_of_mem (fun x => (hfloat x).1) hp,
        fun p hp => Options.isField_of_mem (fun x => (hfloat x).2.1) hp⟩,
      fun p hp => isField_of_mem_rows htables hservers hp⟩
  have hkeys : ((("settings", bp.settings.toDocument) ::
      (optionalField bp.globals.isEmpty "globals" bp.globals.toDocument ++
        optionalField bp.http.isEmpty "http" bp.http.toDocument ++
        optionalField bp.servers.isEmpty "servers"
          (.list (bp.servers.map Server.toDocument)))).map Prod.fst).Sublist fields := by
    rw [List.map_cons, List.map_append, List.map_append]
    exact (((keys_optionalField _ _ _).append (keys_optionalField _ _ _)).append
      (keys_optionalField _ _ _)).cons_cons _
  have hnodup : fields.Nodup := by decide
  rw [toDocument_eq]
  exact @tidy_append [] _ (hnodup.sublist hkeys) (List.forall_mem_nil _) hfields

theorem hasNull_toDocument (bp : Blueprint) :
    bp.toDocument.HasNull ↔ .empty ∈ bp.parts := by
  have hservers : Document.EntriesNull (optionalField bp.servers.isEmpty "servers"
      (.list (bp.servers.map Server.toDocument))) ↔
      Document.AnyNull (bp.servers.map Server.toDocument) := by
    rw [entriesNull_optionalField, Document.HasNull]
    intro h
    rw [List.isEmpty_iff.mp h, Document.HasNull]
    exact id
  rw [toDocument_eq, Document.HasNull, Document.EntriesNull, Document.entriesNull_append,
    Document.entriesNull_append, Options.entriesNull_field, Options.entriesNull_field, hservers,
    Server.anyNull_map_toDocument, mem_parts, or_assoc]
  simp only [bp.settings.not_hasNull_toDocument, false_or]

/-! ## Through texts and back -/

theorem parse_of_read {format : Format} {s : String} {bp : Blueprint}
    (h : format.read s = .ok bp.toDocument) : parse format s = .ok bp := by
  rw [parse, Format.decode, h]
  simp only [decode_toDocument]

theorem parse_json {bp : Blueprint} (hfloat : ∀ x, .float x ∉ bp.parts)
    (hdepth : bp.toDocument.height ≤ Json.maxDepth) :
    parse .json (Json.write bp.toDocument) = .ok bp := by
  refine parse_of_read ?_
  simp only [Format.read, Json.read?_write (tidy_toDocument hfloat).plain hdepth]

theorem serialize_toml_eq_error {bp : Blueprint} (hfloat : ∀ x, .float x ∉ bp.parts) :
    (∃ e, bp.serialize .toml = .error e) ↔ .empty ∈ bp.parts := by
  have hplain := (tidy_toDocument hfloat).plain
  rw [toDocument_eq] at hplain
  rw [← hasNull_toDocument, toDocument_eq, ← Toml.write?_eq_none hplain, ← toDocument_eq,
    serialize, Format.write?]
  cases Toml.write? bp.toDocument <;> simp

/-- One empty value in a list is enough. -/
example : serialize .toml { empty with http := .ofList [("index", .list [.str "a", .empty])] } =
    .error .unwritable :=
  rfl

theorem serialize_toml_eq_ok {bp : Blueprint} {s : String} :
    bp.serialize .toml = .ok s ↔ Toml.write? bp.toDocument = some s := by
  rw [serialize, Format.write?]
  cases Toml.write? bp.toDocument <;> simp

theorem parse_toml {bp : Blueprint} (hfloat : ∀ x, .float x ∉ bp.parts)
    (hfits : Toml.fits 0 bp.toDocument = true) {s : String} (h : bp.serialize .toml = .ok s) :
    parse .toml s = .ok bp := by
  have htidy := tidy_toDocument hfloat
  rw [serialize_toml_eq_ok] at h
  rw [toDocument_eq] at htidy hfits h
  have hread := Toml.read_write htidy.plain htidy.layered hfits h
  rw [← toDocument_eq] at hread
  exact parse_of_read hread

/-- The text of what a blueprint compiles to does not depend on the builder. -/
theorem render_build (bp : Blueprint) (id id' : BuilderId) :
    ((bp.build id).map Builder.render).toOption = ((bp.build id').map Builder.render).toOption := by
  by_cases hvalid : bp.Valid
  · have hcompile (id : BuilderId) := compile_eq_ok.mpr ⟨hvalid, (rfl : _ = (bp.skeleton id).withTree
      ((bp.skeleton id).tree.appendAll 3 (bp.servers.map Server.block)))⟩
    rw [build, build, hcompile id, hcompile id']
    rfl
  · have hcompile (id : BuilderId) : ((bp.build id).map Builder.render).toOption = none := by
      rw [build]
      cases hc : bp.compile id with
      | error e => rfl
      | ok b => exact absurd (compile_eq_ok.mp hc).1 hvalid
    rw [hcompile id, hcompile id']

/-- **Blueprints come back from both formats.** A blueprint without floating point
numbers comes back from its JSON text, if it does not nest too deeply for the
reader. It has a TOML text unless some option value is or contains an empty one,
and comes back from that too. The two texts lead to the outcome that a build of
the blueprint has, and to one text of the configuration whichever builders are
used. -/
theorem round_trip (bp : Blueprint) (hfloat : ∀ x, .float x ∉ bp.parts) :
    (bp.toDocument.height ≤ Json.maxDepth →
        ∃ s, bp.serialize .json = .ok s ∧ parse .json s = .ok bp)
      ∧ ((∃ e, bp.serialize .toml = .error e) ↔ .empty ∈ bp.parts)
      ∧ (Toml.fits 0 bp.toDocument = true → .empty ∉ bp.parts →
        ∃ t, bp.serialize .toml = .ok t ∧ parse .toml t = .ok bp)
      ∧ (bp.toDocument.height ≤ Json.maxDepth → Toml.fits 0 bp.toDocument = true →
        ∀ s t, bp.serialize .json = .ok s → bp.serialize .toml = .ok t →
          (∀ id, buildFrom (parse .json s) id = bp.build id
            ∧ buildFrom (parse .toml t) id = bp.build id)
            ∧ ∀ id id', ((buildFrom (parse .json s) id).map Builder.render).toOption =
                ((buildFrom (parse .toml t) id').map Builder.render).toOption) := by
  have herror := serialize_toml_eq_error hfloat
  refine ⟨fun hjson => ⟨_, rfl, parse_json hfloat hjson⟩, herror, fun htoml hempty => ?_,
    fun hjson htoml s t hs ht => ?_⟩
  · cases ht : bp.serialize .toml with
    | error e => exact absurd (herror.mp ⟨e, ht⟩) hempty
    | ok t => exact ⟨t, rfl, parse_toml hfloat htoml ht⟩
  · cases hs
    rw [parse_json hfloat hjson, parse_toml hfloat htoml ht]
    exact ⟨fun id => ⟨rfl, rfl⟩, bp.render_build⟩

/-- A blueprint with a route in a route, a list in a list, and a server of
nothing but its defaults. -/
def nestedSite : Blueprint where
  settings := { workerProcesses := .count 4 }
  globals := .ofList [("user", .str "www"), ("env", .list [.str "LANG", .list []])]
  http := ∅
  servers :=
    [⟨some "example.com", .ofList [("listen", .int 80), ("http2", .bool true)],
      [.mk "/" (.ofList [("try_files", .list [.str "$uri", .str "=404"])])
        [.mk "/api" (.ofList [("proxy_pass", .str "http://api")]) []]]⟩,
    ⟨none, ∅, []⟩]

/-- The nested blueprint comes back from both of its texts. -/
theorem round_trip_nestedSite :
    (∀ x, .float x ∉ nestedSite.parts) ∧ nestedSite.toDocument.height ≤ Json.maxDepth
      ∧ Toml.fits 0 nestedSite.toDocument = true
      ∧ ∃ s t, nestedSite.serialize .json = .ok s ∧ parse .json s = .ok nestedSite
        ∧ nestedSite.serialize .toml = .ok t ∧ parse .toml t = .ok nestedSite := by
  have hparts : nestedSite.parts = [.str "www", .list [.str "LANG", .list []], .str "LANG",
      .list [], .int 80, .bool true, .list [.str "$uri", .str "=404"], .str "$uri", .str "=404",
      .str "http://api"] := rfl
  have hfloat : ∀ x, .float x ∉ nestedSite.parts := by
    rw [hparts]
    simp
  have hempty : .empty ∉ nestedSite.parts := by
    rw [hparts]
    simp
  have hjson : nestedSite.toDocument.height ≤ Json.maxDepth := by decide
  have htoml : Toml.fits 0 nestedSite.toDocument = true := by decide
  obtain ⟨hback, -, hback', -⟩ := round_trip nestedSite hfloat
  obtain ⟨s, hs, hparse⟩ := hback hjson
  obtain ⟨t, ht, hparse'⟩ := hback' htoml hempty
  exact ⟨hfloat, hjson, htoml, s, t, hs, hparse, ht, hparse'⟩

end Blueprint

end NginxConfig
