import Mathlib.Data.List.Forall2
import NginxConfig.Proofs.Blueprint.Decoding

/-!
# Records and their fields

A document is decoded from the top, and each part of it is taken for something: a server,
the routes of a server, one of their option tables, or nothing at all. What that is depends
on the place of the part, and the places are those of the records that the part lies in.

A `Schema` says how one record is made: what each field is taken for, and whether other
fields are refused. A record is accepted only if each field is accepted for what it is taken
for, and a document that is put in place of a field has the same outcome for the record as
for the field (`Schema.decode_fill`).
-/

namespace NginxConfig

/-! ## Places in a document -/

/-- One step into a document, with all that stands around the part it leads to. -/
inductive Document.Frame where
  | entry (before : List (String × Document)) (key : String) (after : List (String × Document))
  | item (before after : List Document)

/-- The document with a part in its place. -/
def Document.Frame.fill : Frame → Document → Document
  | entry before key after, d => .table (before ++ (key, d) :: after)
  | item before after, d => .list (before ++ d :: after)

/-- The steps from a document to one of its parts. -/
abbrev Document.Place := List Document.Frame

def Document.Place.fill : Place → Document → Document
  | [], d => d
  | f :: rest, d => f.fill (fill rest d)

/-! ## What a part is taken for -/

/-- What a part of a document is taken for, with what it comes out as. -/
inductive Part where
  | blueprint (bp : Blueprint)
  | settings (s : Settings)
  | servers (ss : List Server)
  | server (s : Server)
  | routes (rs : List Route)
  | route (r : Route)
  | options (o : Options)
  /-- A value of an option or a field, which has no tables in it. -/
  | value
  /-- Nobody looks at it. -/
  | ignored

/-- The outcome of a decoder: a fault if there is one. -/
def outcome {α : Type} (fault? : Option Fault) (a : α) : Except Fault α :=
  match fault? with
  | none => .ok a
  | some fault => .error fault

/-- A document has a fault as the part it is taken for, or it comes out as that part. -/
def Part.Becomes (c : Convention) (fault? : Option Fault) : Part → Document → Prop
  | blueprint bp, d => Blueprint.decode c d = outcome fault? bp
  | settings s, d => Settings.decode c d = outcome fault? s
  | servers ss, d => Server.decodeAll c d = outcome fault? ss
  | server s, d => Server.decode c d = outcome fault? s
  | routes rs, d => Route.decodeAll c d = outcome fault? rs
  | route r, d => Route.decode c d = outcome fault? r
  | options o, d => Options.decode d = outcome fault? o
  | value, d => fault? = none ∧ (Value.ofDocument? d).isSome
  | ignored, _ => fault? = none

/-- A document comes out as a part. -/
abbrev Part.Of (c : Convention) (p : Part) (d : Document) : Prop :=
  p.Becomes c none d

/-! ## Records -/

/-- What a list parallel to the fields has for one of them. -/
def fieldOf {β : Type} (fields : List String) (xs : List β) (key : String) : Option β :=
  (fields.zip xs).lookup key

theorem fieldOf_eq_none {β : Type} {fields : List String} {key : String} (h : key ∉ fields)
    (xs : List β) : fieldOf fields xs key = none := by
  refine Table.lookup_eq_none.mpr fun hmem => h ?_
  obtain ⟨p, hp, rfl⟩ := List.mem_map.mp hmem
  exact (List.of_mem_zip hp).1

theorem fieldOf_of_forall₂ {β γ : Type} {R : β → γ → Prop} {xs : List β} {ys : List γ}
    (h : List.Forall₂ R xs ys) {key : String} {x : β} :
    ∀ {fields : List String}, fieldOf fields xs key = some x →
      ∃ y, fieldOf fields ys key = some y ∧ R x y := by
  induction h with
  | nil =>
      intro fields hx
      rw [fieldOf, List.zip_nil_right] at hx
      cases hx
  | @cons x' y' xs ys hR _ ih =>
      intro fields hx
      cases fields with
      | nil => cases hx
      | cons field fields =>
          rw [fieldOf, List.zip_cons_cons, List.lookup_cons] at hx ⊢
          cases hkey : key == field with
          | true =>
              rw [hkey] at hx
              cases hx
              exact ⟨y', rfl, hR⟩
          | false =>
              rw [hkey] at hx
              exact ih hx

/-- Nothing that is given changes. -/
def Keeps : List (Option Part) → List (Option Part) → Prop :=
  List.Forall₂ fun x? y? => ∀ x, x? = some x → y? = some x

/-- What is given is what comes out. -/
def Yields : List (Option Part) → List Part → Prop :=
  List.Forall₂ fun x? y => ∀ x, x? = some x → x = y

theorem Keeps.refl : ∀ xs : List (Option Part), Keeps xs xs
  | [] => .nil
  | _ :: rest => .cons (fun _ h => h) (Keeps.refl rest)

theorem yields_getD {α : Type} (current : Option α) (f : α → Part) (default : α) :
    ∀ x, current.map f = some x → x = f (current.getD default) := by
  intro x h
  obtain ⟨a, rfl, rfl⟩ := Option.map_eq_some_iff.mp h
  rfl

/-- What it comes to that a field is taken up: it is one part, nothing that is given is lost,
and another document in its place has the same outcome for the record as it has for the
part. -/
def TakesUp {δ : Type} (c : Convention) (fields : List String) (given given' : List (Option Part))
    (key : String) (d : Document) (take : Document → Except Fault δ) (s' : δ) : Prop :=
  ∃ q : Part, q.Of c d ∧ fieldOf fields given' key = some (some q) ∧ Keeps given given'
    ∧ (q ≠ .value → ∀ fault? d', q.Becomes c fault? d' → take d' = outcome fault? s')

/-- How a record is made out of its fields, which are taken up one after the other. -/
structure Schema (α : Type) where
  /-- The fields that are given so far. -/
  Draft : Type
  start : Draft
  fields : List String
  name : String
  /-- Whether other fields are refused. -/
  strict : Bool
  take : Convention → Draft → String × Document → Except Fault Draft
  finish : Draft → Except Fault α
  /-- What each field is taken for, if it is given. -/
  given : Draft → List (Option Part)
  parts : α → List Part
  take_unknown : ∀ {c s key d}, key ∉ fields →
    take c s (key, d) = if strict then .error (.unknownField key fields) else .ok s
  take_ok : ∀ {c s s' key d}, key ∈ fields → take c s (key, d) = .ok s' →
    TakesUp c fields (given s) (given s') key d (fun d' => take c s (key, d')) s'
  finish_ok : ∀ {s a}, finish s = .ok a → Yields (given s) (parts a)

namespace Schema

variable {α : Type} (S : Schema α) (c : Convention)

/-- Takes up fields from first to last. -/
def takeAll (s : S.Draft) (entries : List (String × Document)) : Except Fault S.Draft :=
  entries.foldlM (S.take c) s

def decode : Document → Except Fault α
  | .table entries => do S.finish (← S.takeAll c S.start entries)
  | .list items => do
    let s ← S.takeAll c S.start (S.fields.zip items)
    refuseExtra c (items.drop S.fields.length)
    S.finish s
  | d => .error (.wrongKind d S.name)

/-- What a field of a record is taken for. -/
def part (a : α) (key : String) : Part :=
  (fieldOf S.fields (S.parts a) key).getD .ignored

/-- What the part behind one step into a record is taken for. -/
def behind (a : α) : Document.Frame → Part
  | .entry _ key _ => S.part a key
  | .item before _ => ((S.fields[before.length]?).map (S.part a)).getD .ignored

variable {S c}

theorem takeAll_append {s s' : S.Draft} {l r : List (String × Document)} :
    S.takeAll c s (l ++ r) = .ok s' ↔
      ∃ t, S.takeAll c s l = .ok t ∧ S.takeAll c t r = .ok s' := by
  rw [takeAll, List.foldlM_append, bind_eq_ok]
  rfl

theorem takeAll_cons {s s' : S.Draft} {p : String × Document} {r : List (String × Document)} :
    S.takeAll c s (p :: r) = .ok s' ↔
      ∃ t, S.take c s p = .ok t ∧ S.takeAll c t r = .ok s' := by
  rw [takeAll, List.foldlM_cons, bind_eq_ok]
  rfl

theorem takeAll_error {s t : S.Draft} {l r : List (String × Document)} {p : String × Document}
    {fault : Fault} (hl : S.takeAll c s l = .ok t) (hp : S.take c t p = .error fault) :
    S.takeAll c s (l ++ p :: r) = .error fault := by
  have hrest : S.takeAll c t (p :: r) = .error fault := by
    rw [takeAll, List.foldlM_cons, hp, error_bind]
  rw [takeAll, List.foldlM_append]
  exact bind_eq_error.mpr (.inr ⟨t, hl, hrest⟩)

/-- What is given stays given. -/
theorem fieldOf_takeAll {entries : List (String × Document)} {key : String} {q : Part} :
    ∀ {s s' : S.Draft}, S.takeAll c s entries = .ok s' →
      fieldOf S.fields (S.given s) key = some (some q) →
      fieldOf S.fields (S.given s') key = some (some q) := by
  induction entries with
  | nil =>
      intro s s' h hq
      cases h
      exact hq
  | cons p rest ih =>
      intro s s' h hq
      obtain ⟨t, ht, hrest⟩ := takeAll_cons.mp h
      have hkeep : Keeps (S.given s) (S.given t) := by
        by_cases hkey : p.1 ∈ S.fields
        · obtain ⟨_, -, -, hkeep, -⟩ := S.take_ok hkey ht
          exact hkeep
        · rw [S.take_unknown hkey] at ht
          split at ht
          · cases ht
          · cases ht
            exact .refl _
      obtain ⟨y?, hy, hsome⟩ := fieldOf_of_forall₂ hkeep hq
      exact ih hrest (hy.trans (congrArg some (hsome q rfl)))

theorem part_of_given {s : S.Draft} {a : α} {key : String} {q : Part} (h : S.finish s = .ok a)
    (hq : fieldOf S.fields (S.given s) key = some (some q)) : S.part a key = q := by
  obtain ⟨y, hy, heq⟩ := fieldOf_of_forall₂ (S.finish_ok h) hq
  rw [part, hy, Option.getD_some, heq q rfl]

theorem part_unknown {a : α} {key : String} (hkey : key ∉ S.fields) :
    S.part a key = .ignored := by
  rw [part, fieldOf_eq_none hkey, Option.getD_none]

/-- A field among others is taken for a part of the record. -/
theorem takeAll_field {s s' : S.Draft} {l r : List (String × Document)} {key : String}
    {d : Document} (hkey : key ∈ S.fields) (h : S.takeAll c s (l ++ (key, d) :: r) = .ok s') :
    ∃ q : Part, q.Of c d ∧ fieldOf S.fields (S.given s') key = some (some q)
      ∧ (q ≠ .value → ∀ fault? d', q.Becomes c fault? d' →
          S.takeAll c s (l ++ (key, d') :: r) = outcome fault? s') := by
  obtain ⟨t, hl, hrest⟩ := takeAll_append.mp h
  obtain ⟨u, hd, hr⟩ := takeAll_cons.mp hrest
  obtain ⟨q, hq, hgiven, -, hother⟩ := S.take_ok hkey hd
  refine ⟨q, hq, fieldOf_takeAll hr hgiven, fun hvalue fault? d' hd' => ?_⟩
  have htake := hother hvalue fault? d' hd'
  cases fault? with
  | none => exact takeAll_append.mpr ⟨t, hl, takeAll_cons.mpr ⟨u, htake, hr⟩⟩
  | some fault => exact takeAll_error hl htake

/-- Any other field is the fault of the whole if the record is strict, and makes no
difference if it is not. -/
theorem takeAll_insert {s s' : S.Draft} {l r : List (String × Document)} {key : String}
    (hkey : key ∉ S.fields) (v : Document) (h : S.takeAll c s (l ++ r) = .ok s') :
    S.takeAll c s (l ++ (key, v) :: r) =
      if S.strict then .error (.unknownField key S.fields) else .ok s' := by
  obtain ⟨t, hl, hr⟩ := takeAll_append.mp h
  have htake := S.take_unknown (c := c) (s := t) (d := v) hkey
  cases hs : S.strict with
  | true =>
      rw [hs] at htake
      exact takeAll_error hl htake
  | false =>
      rw [hs] at htake
      exact takeAll_append.mpr ⟨t, hl, takeAll_cons.mpr ⟨t, htake, hr⟩⟩

theorem takeAll_unknown {s s' : S.Draft} {l r : List (String × Document)} {key : String}
    {v : Document} (hkey : key ∉ S.fields) (h : S.takeAll c s (l ++ (key, v) :: r) = .ok s') :
    S.strict = false ∧ S.takeAll c s (l ++ r) = .ok s' := by
  obtain ⟨t, hl, hrest⟩ := takeAll_append.mp h
  obtain ⟨u, hv, hr⟩ := takeAll_cons.mp hrest
  rw [S.take_unknown hkey] at hv
  cases hs : S.strict with
  | true =>
      rw [hs] at hv
      cases hv
  | false =>
      rw [hs] at hv
      cases hv
      exact ⟨rfl, takeAll_append.mpr ⟨t, hl, hr⟩⟩

/-- A strict record has no fields but its own. -/
theorem mem_fields_of_takeAll (hstrict : S.strict = true) {s s' : S.Draft}
    {entries : List (String × Document)} (h : S.takeAll c s entries = .ok s')
    {p : String × Document} (hp : p ∈ entries) : p.1 ∈ S.fields := by
  obtain ⟨l, r, rfl⟩ := List.append_of_mem hp
  refine Classical.byContradiction fun hkey => ?_
  have hopen := (takeAll_unknown hkey h).1
  rw [hstrict] at hopen
  cases hopen

theorem mem_fields_of_decode (hstrict : S.strict = true) {a : α}
    {entries : List (String × Document)} (h : S.decode c (.table entries) = .ok a)
    {p : String × Document} (hp : p ∈ entries) : p.1 ∈ S.fields := by
  obtain ⟨s, hs, -⟩ := bind_eq_ok.mp h
  exact mem_fields_of_takeAll hstrict hs hp

theorem decode_insert {a : α} {l r : List (String × Document)} {key : String}
    (hkey : key ∉ S.fields) (v : Document) (h : S.decode c (.table (l ++ r)) = .ok a) :
    S.decode c (.table (l ++ (key, v) :: r)) =
      if S.strict then .error (.unknownField key S.fields) else .ok a := by
  obtain ⟨s, hs, hfinish⟩ := bind_eq_ok.mp h
  rw [decode, takeAll_insert hkey v hs]
  cases S.strict with
  | true => rfl
  | false => exact hfinish

/-! ### One step into a record -/

theorem zip_eq_of_getElem? {fields : List String} {before after : List Document} {key : String}
    (h : fields[before.length]? = some key) (d : Document) :
    fields.zip (before ++ d :: after) =
      (fields.take before.length).zip before ++
        (key, d) :: (fields.drop (before.length + 1)).zip after := by
  obtain ⟨hlt, rfl⟩ := List.getElem?_eq_some_iff.mp h
  have hlen : (fields.take before.length).length = before.length :=
    List.length_take_of_le (Nat.le_of_lt hlt)
  have hsplit : fields = fields.take before.length ++
      fields[before.length] :: fields.drop (before.length + 1) := by
    rw [← List.drop_eq_getElem_cons hlt, List.take_append_drop]
  exact (congrArg (List.zip · _) hsplit).trans (List.zip_append hlen)

/-- Items behind those that stand for fields are not looked at. -/
theorem zip_eq_of_length_le :
    ∀ {fields : List String} {before after : List Document}, fields.length ≤ before.length →
      fields.zip (before ++ after) = fields.zip before
  | [], _, _, _ => by rw [List.zip_nil_left, List.zip_nil_left]
  | _ :: _, [], _, h => absurd h (Nat.not_succ_le_zero _)
  | key :: fields, d :: before, _, h => by
      rw [List.cons_append, List.zip_cons_cons, List.zip_cons_cons,
        zip_eq_of_length_le (Nat.le_of_succ_le_succ h)]

/-- What is left over counts, but not what it is. -/
theorem refuseExtra_fill (before after : List Document) (n : Nat) (d d' : Document) :
    refuseExtra c ((before ++ d :: after).drop n) =
      refuseExtra c ((before ++ d' :: after).drop n) := by
  have hempty : ((before ++ d :: after).drop n).isEmpty =
      ((before ++ d' :: after).drop n).isEmpty := by
    rw [Bool.eq_iff_iff, List.isEmpty_iff_length_eq_zero, List.isEmpty_iff_length_eq_zero]
    simp only [List.length_drop, List.length_append, List.length_cons]
  rw [refuseExtra, hempty, refuseExtra]

/-- If a record is accepted, what stands behind one step is accepted for what it is taken for.
Another document in its place has the same outcome for the record as it has there. -/
theorem decode_fill {a : α} {f : Document.Frame} {d : Document}
    (h : S.decode c (f.fill d) = .ok a) :
    (S.behind a f).Of c d
      ∧ (S.behind a f ≠ .value → ∀ fault? d', (S.behind a f).Becomes c fault? d' →
          S.decode c (f.fill d') = outcome fault? a) := by
  cases f with
  | entry before key after =>
      obtain ⟨s, hs, hfinish⟩ := bind_eq_ok.mp h
      by_cases hkey : key ∈ S.fields
      · obtain ⟨q, hq, hgiven, hother⟩ := takeAll_field hkey hs
        have hpart : S.behind a (.entry before key after) = q :=
          part_of_given hfinish hgiven
        rw [hpart]
        refine ⟨hq, fun hvalue fault? d' hd' => ?_⟩
        have htake := hother hvalue fault? d' hd'
        rw [Document.Frame.fill, decode, htake]
        cases fault? with
        | none => exact hfinish
        | some fault => rfl
      · have hpart : S.behind a (.entry before key after) = .ignored := part_unknown hkey
        rw [hpart]
        refine ⟨rfl, fun _ fault? d' hd' => ?_⟩
        cases hd'
        obtain ⟨hopen, hrest⟩ := takeAll_unknown hkey hs
        rw [Document.Frame.fill, decode, takeAll_insert hkey d' hrest, hopen]
        exact hfinish
  | item before after =>
      obtain ⟨s, hs, hrest⟩ := bind_eq_ok.mp h
      obtain ⟨u, hextra, hfinish⟩ := bind_eq_ok.mp hrest
      cases hkey : S.fields[before.length]? with
      | some key =>
          rw [zip_eq_of_getElem? hkey] at hs
          obtain ⟨q, hq, hgiven, hother⟩ := takeAll_field (List.mem_of_getElem? hkey) hs
          have hpart : S.behind a (.item before after) = q := by
            rw [behind, hkey, Option.map_some, Option.getD_some, part_of_given hfinish hgiven]
          rw [hpart]
          refine ⟨hq, fun hvalue fault? d' hd' => ?_⟩
          have htake := hother hvalue fault? d' hd'
          rw [Document.Frame.fill, decode, zip_eq_of_getElem? hkey, htake,
            refuseExtra_fill before after _ d' d, hextra]
          cases fault? with
          | none => exact hfinish
          | some fault => rfl
      | none =>
          have hzip (d : Document) : S.fields.zip (before ++ d :: after) = S.fields.zip before :=
            zip_eq_of_length_le (List.getElem?_eq_none_iff.mp hkey)
          have hpart : S.behind a (.item before after) = .ignored := by
            rw [behind, hkey, Option.map_none, Option.getD_none]
          rw [hpart]
          refine ⟨rfl, fun _ fault? d' hd' => ?_⟩
          cases hd'
          rw [hzip] at hs
          rw [Document.Frame.fill, decode, hzip, hs, refuseExtra_fill before after _ d' d, hextra]
          exact hfinish

/-- The same for a decoder that is the schema's under another name. -/
theorem fill_of_eq {decode : Document → Except Fault α} {a : α} {f : Document.Frame}
    {d : Document} (hdecode : ∀ d, decode (f.fill d) = S.decode c (f.fill d))
    (h : decode (f.fill d) = .ok a) :
    (S.behind a f).Of c d
      ∧ (S.behind a f ≠ .value → ∀ fault? d', (S.behind a f).Becomes c fault? d' →
          decode (f.fill d') = outcome fault? a) := by
  simp only [hdecode] at h ⊢
  exact decode_fill h

end Schema

end NginxConfig
