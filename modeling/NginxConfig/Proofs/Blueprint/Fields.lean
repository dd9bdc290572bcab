import NginxConfig.Proofs.Blueprint.Parts
import NginxConfig.Proofs.Json.RoundTrip

/-!
# Keys that are no fields

Every object in the document of a blueprint stands for a record or for a table of options,
apart from those in places that nobody looks at. Blueprints, servers and routes are strict:
no key that is not a field of theirs gets by, wherever the record stands, and the fault
names it. Settings are not, and so a key in them that is misspelt counts as none, and its
field takes its default (`Blueprint.unknown_keys`).
-/

namespace NginxConfig

namespace Part

/-- The fields of a record. -/
def fields : Part → List String
  | blueprint _ => Blueprint.fields
  | settings _ => Settings.fields
  | server _ => Server.fields
  | route _ => Route.fields
  | _ => []

/-- Records that refuse other keys. -/
def isStrict : Part → Bool
  | blueprint _ | server _ | route _ => true
  | _ => false

/-- Places where other keys do not count. -/
def isLenient : Part → Bool
  | settings _ | ignored => true
  | _ => false

variable {c : Convention} {p : Part}

/-- Where an object can stand. -/
theorem kinds_of_table {entries : List (String × Document)} (h : p.Of c (.table entries)) :
    p.isStrict = true ∨ p.isLenient = true ∨ ∃ o, p = options o := by
  cases p with
  | blueprint bp => exact .inl rfl
  | settings s => exact .inr (.inl rfl)
  | servers ss => cases h
  | server s => exact .inl rfl
  | routes rs => cases h
  | route r => exact .inl rfl
  | options o => exact .inr (.inr ⟨o, rfl⟩)
  | value => cases h.2
  | ignored => exact .inr (.inl rfl)

theorem mem_fields_of_table {entries : List (String × Document)} (hstrict : p.isStrict = true)
    (h : p.Of c (.table entries)) {e : String × Document} (he : e ∈ entries) :
    e.1 ∈ p.fields := by
  cases p with
  | blueprint bp =>
      exact Schema.mem_fields_of_decode rfl ((Blueprint.decode_eq c _).symm.trans h) he
  | server s => exact Schema.mem_fields_of_decode rfl ((Server.decode_eq c _).symm.trans h) he
  | route r =>
      exact Schema.mem_fields_of_decode rfl ((Route.decode_table c _).symm.trans h) he
  | _ => cases hstrict

theorem becomes_insert {l r : List (String × Document)} {key : String} (hkey : key ∉ p.fields)
    (v : Document) (h : p.Of c (.table (l ++ r))) :
    (p.isStrict = true →
        p.Becomes c (some (.unknownField key p.fields)) (.table (l ++ (key, v) :: r)))
      ∧ (p.isLenient = true → p.Of c (.table (l ++ (key, v) :: r))) := by
  cases p with
  | blueprint bp =>
      have hinsert := Schema.decode_insert hkey v ((Blueprint.decode_eq c _).symm.trans h)
      exact ⟨fun _ => (Blueprint.decode_eq c _).trans hinsert, nofun⟩
  | server s =>
      have hinsert := Schema.decode_insert hkey v ((Server.decode_eq c _).symm.trans h)
      exact ⟨fun _ => (Server.decode_eq c _).trans hinsert, nofun⟩
  | route r =>
      have hinsert := Schema.decode_insert hkey v ((Route.decode_table c _).symm.trans h)
      exact ⟨fun _ => (Route.decode_table c _).trans hinsert, nofun⟩
  | settings s =>
      have hinsert := Schema.decode_insert hkey v ((Settings.decode_eq c _).symm.trans h)
      exact ⟨nofun, fun _ => (Settings.decode_eq c _).trans hinsert⟩
  | ignored => exact ⟨nofun, fun _ => rfl⟩
  | _ => exact ⟨nofun, nofun⟩

end Part

namespace Blueprint

variable {format : Format} {s : String} {bp : Blueprint}

/-- **What becomes of keys that are no fields.** In a document that is accepted, every object
stands for a strict record, for settings or something that nobody looks at, or for a table of
options. A strict record has no keys but its fields, and to put in another one makes the
document refused for that key. Anywhere else but among options, another key makes no
difference. -/
theorem unknown_keys {place : Document.Place} {entries : List (String × Document)}
    (hread : format.read s = .ok (place.fill (.table entries)))
    (hparse : parse format s = .ok bp) :
    let q := (Part.blueprint bp).follow place
    (q.isStrict = true ∨ q.isLenient = true ∨ ∃ o, q = .options o)
      ∧ (q.isStrict = true → ∀ e ∈ entries, e.1 ∈ q.fields)
      ∧ ∀ l r key v t, entries = l ++ r → key ∉ q.fields →
          ∀ d, d = place.fill (.table (l ++ (key, v) :: r)) → format.read t = .ok d →
            (q.isStrict = true → parse format t = .error (.document format
                (if d.isReadable then .fault (.unknownField key q.fields) else .malformed)))
              ∧ (q.isLenient = true → parse format t = .ok bp) := by
  intro q
  have hwhole : (Part.blueprint bp).Of format.convention (place.fill (.table entries)) :=
    (parse_eq_ok hread).mp hparse
  have hq : q.Of format.convention (.table entries) := Part.of_follow hwhole
  refine ⟨Part.kinds_of_table hq, fun hstrict e => Part.mem_fields_of_table hstrict hq, ?_⟩
  rintro l r key v t rfl hkey d rfl ht
  obtain ⟨hrefused, hpassed⟩ := Part.becomes_insert hkey v hq
  constructor
  · intro hstrict
    have hvalue : q ≠ .value := fun h => by
      rw [h] at hstrict
      cases hstrict
    exact parse_of_fault ht (Part.becomes_follow hwhole hvalue (hrefused hstrict))
  · intro hlenient
    have hvalue : q ≠ .value := fun h => by
      rw [h] at hlenient
      cases hlenient
    exact (parse_eq_ok ht).mpr (Part.becomes_follow hwhole hvalue (hpassed hlenient))

/-- The document of a server, with what stands in its settings and in the server. -/
def siteDocument (settings server : List (String × Document)) : Document :=
  .table [("settings", .table settings), ("servers", .list [.table server])]

theorem read_siteDocument (settings server : List (String × Document))
    (hplain : (siteDocument settings server).IsPlain)
    (hheight : (siteDocument settings server).height ≤ Json.maxDepth) :
    Format.json.read (Json.write (siteDocument settings server)) =
      .ok (siteDocument settings server) := by
  simp only [Format.read, Json.read?_write hplain hheight]

/-- Another name for the host is refused, and a misspelt setting is not. -/
theorem unknown_keys_site :
    let host : String × Document := ("hostname", .text "a.org")
    let site : Blueprint := ⟨{}, ∅, ∅, [⟨some "a.org", ∅, []⟩]⟩
    parse .json (Json.write (siteDocument [] [host])) = .ok site
      ∧ parse .json (Json.write (siteDocument [] [host, ("host", .text "b.org")])) =
          .error (.document .json (.fault (.unknownField "host" Server.fields)))
      ∧ parse .json (Json.write (siteDocument [("worker_conections", .int 1024)] [host])) =
          .ok site := by
  intro host site
  have hsite := read_siteDocument [] [host]
    (by simp [siteDocument, host, Document.IsPlain, Document.EntriesPlain, Document.AllPlain])
    (by decide)
  have hhost := read_siteDocument [] [host, ("host", .text "b.org")]
    (by simp [siteDocument, host, Document.IsPlain, Document.EntriesPlain, Document.AllPlain])
    (by decide)
  have hrange : Document.InRange 1024 := Document.inRange_word 1024
  have hsetting := read_siteDocument [("worker_conections", .int 1024)] [host]
    (by simp [siteDocument, host, Document.IsPlain, Document.EntriesPlain, Document.AllPlain,
      hrange])
    (by decide)
  have hparse : parse .json (Json.write (siteDocument [] [host])) = .ok site :=
    (parse_eq_ok hsite).mpr rfl
  let inServer : Document.Place := [.entry [("settings", .table [])] "servers" [], .item [] []]
  let inSettings : Document.Place := [.entry [] "settings" [("servers", .list [.table [host]])]]
  have hserver : siteDocument [] [host] = inServer.fill (.table [host]) := rfl
  have hsettings : siteDocument [] [host] = inSettings.fill (.table []) := rfl
  obtain ⟨-, -, hrefused⟩ := unknown_keys (hserver ▸ hsite) hparse
  obtain ⟨-, -, hpassed⟩ := unknown_keys (hsettings ▸ hsite) hparse
  refine ⟨hparse, ?_, ?_⟩
  · exact (hrefused [host] [] "host" (.text "b.org") _ rfl (by decide) _ rfl hhost).1 rfl
  · exact (hpassed [] [] "worker_conections" (.int 1024) _ rfl (by decide) _ rfl hsetting).2 rfl

/-- Not every key outside of the options is a field: a setting may be misspelt. -/
theorem not_all_keys_are_fields :
    ¬ ∀ (format : Format) (s : String) (bp : Blueprint) (place : Document.Place)
        (entries : List (String × Document)),
        format.read s = .ok (place.fill (.table entries)) → parse format s = .ok bp →
          (¬ ∃ o, (Part.blueprint bp).follow place = .options o) →
            ∀ e ∈ entries, e.1 ∈ ((Part.blueprint bp).follow place).fields := by
  intro h
  have hrange : Document.InRange 1024 := Document.inRange_word 1024
  have hread := read_siteDocument [("worker_conections", .int 1024)] []
    (by simp [siteDocument, Document.IsPlain, Document.EntriesPlain, Document.AllPlain,
      hrange])
    (by decide)
  have hparse : parse .json (Json.write (siteDocument [("worker_conections", .int 1024)] [])) =
      .ok ⟨{}, ∅, ∅, [⟨none, ∅, []⟩]⟩ :=
    (parse_eq_ok hread).mpr rfl
  have hplace : ¬ ∃ o, Part.settings {} = .options o := by
    rintro ⟨o, ho⟩
    cases ho
  have hfield := h .json _ _ [.entry [] "settings" [("servers", .list [.table []])]]
    [("worker_conections", .int 1024)] hread hparse hplace _ (List.mem_singleton.mpr rfl)
  exact absurd hfield (by decide)

end Blueprint

end NginxConfig
