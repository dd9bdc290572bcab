import NginxConfig.Proofs.Table
import NginxConfig.Proofs.Toml.Values
import NginxConfig.Toml.Writer

/-!
# The tables that headers and keys say

A document whose tables name themselves is laid out as statements: the header of
a table, the pairs in it, and then the statements of the tables inside. Reading
these statements in order builds the document again (`builds_document`).

While the statements of a table are read, that table is the last one of the
table around it, and so on outwards. So all that is built so far is the table at
hand in a context, and the path of the latest header leads to it (`Leads`): what
is added to the table at hand is added inside the context, and the context stays
as it is.
-/

namespace NginxConfig.Toml

/-! ## Statements of a document -/

/-- The keys of a table with values that stand after them. -/
def pairStatements : List (String × Document) → List Statement
  | [] => []
  | (key, d) :: rest =>
    if hasHeader d then pairStatements rest else .pair ⟨[], key⟩ d :: pairStatements rest

mutual

/-- The statements of a document under the header that the path and the key
make. -/
def statementsOf (path : List String) (key : String) : Document → List Statement
  | .table entries =>
    .table ⟨path, key⟩ :: pairStatements entries ++ statementsIn (path ++ [key]) entries
  | .list items => rowStatements path key items
  | _ => []

def rowStatements (path : List String) (key : String) : List Document → List Statement
  | [] => []
  | .table entries :: rest =>
    .row ⟨path, key⟩ :: pairStatements entries ++ statementsIn (path ++ [key]) entries
      ++ rowStatements path key rest
  | _ :: rest => rowStatements path key rest

/-- The statements of the tables in a table. -/
def statementsIn (path : List String) : List (String × Document) → List Statement
  | [] => []
  | (key, d) :: rest =>
    (if hasHeader d then statementsOf path key d else []) ++ statementsIn path rest

end

mutual

/-- What the statements of a document make of it. -/
def itemOf : Document → Item
  | .table entries => .table false false (itemsIn entries)
  | .list items => if hasHeader (.list items) then .rows (rowsOf items) else .value (.list items)
  | d => .value d

def itemsIn : List (String × Document) → Entries
  | [] => []
  | (key, d) :: rest => (key, itemOf d) :: itemsIn rest

def rowsOf : List Document → List Entries
  | [] => []
  | .table entries :: rest => itemsIn entries :: rowsOf rest
  | _ :: rest => rowsOf rest

end

theorem hasHeader_list {items : List Document} :
    hasHeader (.list items) = true ↔ items ≠ [] ∧ ∀ d ∈ items, isTable d = true := by
  rw [hasHeader, Bool.and_eq_true, Bool.not_eq_true', List.isEmpty_eq_false_iff, List.all_eq_true]

mutual

/-- Items say the document that they are made of. -/
theorem toDocument_itemOf : ∀ d : Document, (itemOf d).toDocument = d
  | .null | .bool _ | .int _ | .float _ | .text _ | .unreadable => by
      simp only [itemOf, Item.toDocument]
  | .table entries => by rw [itemOf, Item.toDocument, entriesToDocument_itemsIn entries]
  | .list items => by
      rw [itemOf]
      by_cases h : hasHeader (.list items) = true
      · rw [if_pos h, Item.toDocument, rowsToDocument_rowsOf items (hasHeader_list.mp h).2]
      · rw [if_neg h, Item.toDocument]

theorem entriesToDocument_itemsIn : ∀ entries : List (String × Document),
    entriesToDocument (itemsIn entries) = entries
  | [] => by rw [itemsIn]; rfl
  | (key, d) :: rest => by
      rw [itemsIn, entriesToDocument, toDocument_itemOf d, entriesToDocument_itemsIn rest]

theorem rowsToDocument_rowsOf : ∀ items : List Document, (∀ d ∈ items, isTable d = true) →
    rowsToDocument (rowsOf items) = items
  | [] => fun _ => by rw [rowsOf]; rfl
  | d :: rest => fun h => by
      have hrest := rowsToDocument_rowsOf rest fun e he => h e (List.mem_cons_of_mem d he)
      cases d with
      | table entries =>
          rw [rowsOf, rowsToDocument, entriesToDocument_itemsIn entries, hrest]
      | _ => exact nomatch h _ List.mem_cons_self

end

/-! ## The table at hand -/

theorem within_append (dotted : Bool) (change : Bool → Entries → Option Entries)
    (path more : List String) (isDotted : Bool) (entries : Entries) :
    within dotted change isDotted entries (path ++ more) =
      within dotted (fun isDotted inner => within dotted change isDotted inner more) isDotted
        entries path := by
  induction path generalizing isDotted entries with
  | nil => rw [List.nil_append, within]
  | cons key path ih =>
      simp only [List.cons_append, within, ih]

/-- The path leads to the table at hand: what changes that table changes all that
is built so far inside the context. -/
def Leads (context : Entries → Entries) (path : List String) : Prop :=
  ∀ (change : Bool → Entries → Option Entries) (inner : Entries),
    within false change false (context inner) path = (change false inner).map context

theorem leads_nil : Leads id [] := by
  intro change inner
  rw [within, Option.map_id]
  rfl

variable {context : Entries → Entries} {path : List String} {key : String} {done : Entries}

theorem lookup_append_last (hkey : key ∉ done.map Prod.fst) (item : Item) :
    (done ++ [(key, item)]).lookup key = some item := by
  rw [List.lookup_append, Table.lookup_eq_none.mpr hkey, List.lookup_cons_self]
  rfl

theorem setEntry_append_last (hkey : key ∉ done.map Prod.fst) (old new : Item) :
    setEntry key new (done ++ [(key, old)]) = done ++ [(key, new)] := by
  induction done with
  | nil => rw [List.nil_append, setEntry, if_pos rfl]; rfl
  | cons p done ih =>
      rw [List.map_cons, List.mem_cons, not_or] at hkey
      rw [List.cons_append, setEntry, if_neg (Ne.symm hkey.1), ih hkey.2]
      rfl

/-- A key behind the others leads into its table. -/
theorem Leads.table (h : Leads context path) (hkey : key ∉ done.map Prod.fst) :
    Leads (fun inner => context (done ++ [(key, .table false false inner)])) (path ++ [key]) := by
  intro change inner
  rw [within_append, h, within, lookup_append_last hkey]
  simp only [within, setEntry_append_last hkey]
  cases change false inner <;> rfl

/-- A key behind the others leads into the last of its rows. -/
theorem Leads.row (h : Leads context path) (hkey : key ∉ done.map Prod.fst)
    (before : List Entries) :
    Leads (fun inner => context (done ++ [(key, .rows (before ++ [inner]))])) (path ++ [key]) := by
  intro change inner
  rw [within_append, h, within, lookup_append_last hkey]
  simp only [within, List.getLast?_concat, List.dropLast_concat, setEntry_append_last hkey]
  cases change false inner <;> rfl

/-! ## One statement -/

/-- The statements, one after the other, lead from one reading to another. -/
def Builds (found : List Statement) (r r' : Reading) : Prop :=
  found.foldlM Reading.add r = some r'

theorem Builds.nil (r : Reading) : Builds [] r r := rfl

theorem Builds.cons {s : Statement} {found : List Statement} {r r' r'' : Reading}
    (h : r.add s = some r') (hrest : Builds found r' r'') : Builds (s :: found) r r'' := by
  rw [Builds, List.foldlM_cons, h]
  exact hrest

theorem Builds.append {found more : List Statement} {r r' r'' : Reading}
    (h : Builds found r r') (hmore : Builds more r' r'') : Builds (found ++ more) r r'' := by
  rw [Builds, List.foldlM_append, h]
  exact hmore

theorem add_pair (h : Leads context path) (hkey : key ∉ done.map Prod.fst) (d : Document) :
    Reading.add ⟨context done, path⟩ (.pair ⟨[], key⟩ d) =
      some ⟨context (done ++ [(key, .value d)]), path⟩ := by
  have hadd : addValue done [] key d = some (done ++ [(key, .value d)]) := by
    rw [addValue, within, Table.lookup_eq_none.mpr hkey]
    rfl
  rw [Reading.add, addValueAt, h, hadd]
  rfl

theorem add_table (h : Leads context path) (hkey : key ∉ done.map Prod.fst)
    (opened : List String) :
    Reading.add ⟨context done, opened⟩ (.table ⟨path, key⟩) =
      some ⟨context (done ++ [(key, .table false false [])]), path ++ [key]⟩ := by
  rw [Reading.add, openTable, h, Table.lookup_eq_none.mpr hkey]
  rfl

theorem add_first_row (h : Leads context path) (hkey : key ∉ done.map Prod.fst)
    (opened : List String) :
    Reading.add ⟨context done, opened⟩ (.row ⟨path, key⟩) =
      some ⟨context (done ++ [(key, .rows [[]])]), path ++ [key]⟩ := by
  rw [Reading.add, openRow, h, Table.lookup_eq_none.mpr hkey]
  rfl

theorem add_next_row (h : Leads context path) (hkey : key ∉ done.map Prod.fst)
    (rows : List Entries) (opened : List String) :
    Reading.add ⟨context (done ++ [(key, .rows rows)]), opened⟩ (.row ⟨path, key⟩) =
      some ⟨context (done ++ [(key, .rows (rows ++ [[]]))]), path ++ [key]⟩ := by
  rw [Reading.add, openRow, h, lookup_append_last hkey]
  simp only [setEntry_append_last hkey]
  rfl

/-! ## All statements of a document -/

/-- The keys are distinct, and values come before tables. -/
structure Sorted (entries : List (String × Document)) : Prop where
  keys : (entries.map Prod.fst).Nodup
  valuesFirst : entries.Pairwise fun p q => hasHeader p.2 = true → hasHeader q.2 = true

/-- A document under a key of its own: a value is written after the key, and a
table has a header, since it is empty or has a value in it. -/
def Placed : Document → Prop
  | .table entries => entries = [] ∨ ∃ p ∈ entries, hasHeader p.2 = false
  | d => hasHeader d = false → IsInline d

theorem Placed.inline {d : Document} (h : Placed d) (hd : hasHeader d = false) : IsInline d := by
  cases d with
  | table entries => cases hd
  | _ => exact h hd

mutual

/-- A document that is written line by line in its own order. -/
def Layered : Document → Prop
  | .table entries => Sorted entries ∧ LayeredEntries entries
  | .list items => LayeredAll items
  | _ => True

def LayeredAll : List Document → Prop
  | [] => True
  | d :: rest => Layered d ∧ LayeredAll rest

def LayeredEntries : List (String × Document) → Prop
  | [] => True
  | (_, d) :: rest => Placed d ∧ Layered d ∧ LayeredEntries rest

end

theorem layeredAll_iff {items : List Document} :
    LayeredAll items ↔ ∀ d ∈ items, Layered d := by
  induction items with
  | nil => simp [LayeredAll]
  | cons d rest ih => rw [LayeredAll, ih, List.forall_mem_cons]

theorem layeredEntries_iff {entries : List (String × Document)} :
    LayeredEntries entries ↔ ∀ p ∈ entries, Placed p.2 ∧ Layered p.2 := by
  induction entries with
  | nil => simp [LayeredEntries]
  | cons p rest ih => rw [LayeredEntries, ih, List.forall_mem_cons, and_assoc]

/-- The entries that are values. -/
def valuesIn : List (String × Document) → Entries
  | [] => []
  | (key, d) :: rest => if hasHeader d then valuesIn rest else (key, .value d) :: valuesIn rest

/-- The entries under headers. -/
def tablesIn : List (String × Document) → Entries
  | [] => []
  | (key, d) :: rest => if hasHeader d then (key, itemOf d) :: tablesIn rest else tablesIn rest

theorem itemOf_value {d : Document} (h : hasHeader d = false) : itemOf d = .value d := by
  cases d with
  | table entries => cases h
  | list items => rw [itemOf, if_neg (Bool.eq_false_iff.mp h)]
  | _ => simp only [itemOf]

theorem keys_itemsIn (entries : List (String × Document)) :
    (itemsIn entries).map Prod.fst = entries.map Prod.fst := by
  induction entries with
  | nil => rfl
  | cons p rest ih => rw [itemsIn, List.map_cons, List.map_cons, ih]

theorem Sorted.tail {p : String × Document} {rest : List (String × Document)}
    (h : Sorted (p :: rest)) : Sorted rest :=
  ⟨(List.nodup_cons.mp h.keys).2, (List.pairwise_cons.mp h.valuesFirst).2⟩

/-- Values that come first keep their places. -/
theorem Sorted.itemsIn_eq {entries : List (String × Document)} (h : Sorted entries) :
    itemsIn entries = valuesIn entries ++ tablesIn entries := by
  induction entries with
  | nil => rfl
  | cons p rest ih =>
      obtain ⟨key, d⟩ := p
      rw [itemsIn, ih h.tail, valuesIn, tablesIn]
      cases hd : hasHeader d with
      | false =>
          rw [if_neg Bool.false_ne_true, if_neg Bool.false_ne_true, itemOf_value hd]
          rfl
      | true =>
          -- Behind a table there are only tables.
          have hall : ∀ q ∈ rest, hasHeader q.2 = true := fun q hq =>
            (List.pairwise_cons.mp h.valuesFirst).1 q hq hd
          have hnone : valuesIn rest = [] := by
            clear ih h
            induction rest with
            | nil => rfl
            | cons q rest ih =>
                rw [valuesIn, if_pos (hall q List.mem_cons_self),
                  ih fun r hr => hall r (List.mem_cons_of_mem q hr)]
          rw [if_pos rfl, if_pos rfl, hnone]
          rfl

theorem key_not_mem {item : Item} {more : Entries}
    (h : ((done ++ (key, item) :: more).map Prod.fst).Nodup) : key ∉ done.map Prod.fst := by
  rw [List.map_append, List.nodup_append] at h
  exact fun hmem => h.2.2 key hmem key List.mem_cons_self rfl

theorem builds_pairStatements (h : Leads context path) {entries : List (String × Document)}
    (hkeys : ((done ++ valuesIn entries).map Prod.fst).Nodup) :
    Builds (pairStatements entries) ⟨context done, path⟩
      ⟨context (done ++ valuesIn entries), path⟩ := by
  induction entries generalizing done with
  | nil =>
      rw [valuesIn, List.append_nil]
      exact Builds.nil _
  | cons p rest ih =>
      obtain ⟨key, d⟩ := p
      rw [valuesIn] at hkeys ⊢
      rw [pairStatements]
      by_cases hd : hasHeader d = true
      · rw [if_pos hd] at hkeys ⊢
        rw [if_pos hd]
        exact ih hkeys
      · rw [if_neg hd] at hkeys ⊢
        rw [if_neg hd]
        have hadd := add_pair h (key_not_mem hkeys) d
        rw [List.append_cons] at hkeys ⊢
        exact Builds.cons hadd (ih hkeys)

/-- The statements of a table build its entries: the pairs give the values, and the
statements of the tables inside give the tables. -/
theorem builds_body (h : Leads context path) {entries : List (String × Document)}
    (hsorted : Sorted entries)
    (hin : ∀ done opened, ((done ++ tablesIn entries).map Prod.fst).Nodup →
      ∃ latest, Builds (statementsIn path entries) ⟨context done, opened⟩
        ⟨context (done ++ tablesIn entries), latest⟩) :
    ∃ latest, Builds (pairStatements entries ++ statementsIn path entries) ⟨context [], path⟩
      ⟨context (itemsIn entries), latest⟩ := by
  have hkeys : ((valuesIn entries ++ tablesIn entries).map Prod.fst).Nodup := by
    rw [← hsorted.itemsIn_eq, keys_itemsIn]
    exact hsorted.keys
  have hvalues : (([] ++ valuesIn entries).map Prod.fst).Nodup := by
    rw [List.map_append, List.nodup_append] at hkeys
    exact hkeys.1
  obtain ⟨latest, hlatest⟩ := hin (valuesIn entries) path hkeys
  rw [hsorted.itemsIn_eq]
  exact ⟨latest, (builds_pairStatements h hvalues).append hlatest⟩

mutual

theorem builds_statementsOf : ∀ (d : Document) (context : Entries → Entries) (path : List String)
    (key : String) (done : Entries), Layered d → hasHeader d = true → Leads context path →
    key ∉ done.map Prod.fst → ∀ opened, ∃ latest,
      Builds (statementsOf path key d) ⟨context done, opened⟩
        ⟨context (done ++ [(key, itemOf d)]), latest⟩
  | .table entries => by
      intro context path key done hlayered _ hleads hkey opened
      rw [Layered] at hlayered
      obtain ⟨latest, hbody⟩ := builds_body (hleads.table hkey) hlayered.1
        (builds_statementsIn entries _ _ hlayered.2 (hleads.table hkey))
      rw [statementsOf, itemOf]
      exact ⟨latest, Builds.cons (add_table hleads hkey opened) hbody⟩
  | .list items => by
      intro context path key done hlayered hheader hleads hkey opened
      obtain ⟨hne, htables⟩ := hasHeader_list.mp hheader
      rw [Layered] at hlayered
      rw [statementsOf, itemOf, if_pos hheader]
      exact builds_rowStatements items context path key done hlayered htables hne hleads hkey []
        ⟨context done, opened⟩ (add_first_row hleads hkey opened)
  | .null | .bool _ | .int _ | .float _ | .text _ | .unreadable => by
      intro _ _ _ _ _ hheader
      cases hheader

/-- The rows of a list go behind those that are there, if there are any: each
header adds an empty row, which the statements under it fill. -/
theorem builds_rowStatements : ∀ (items : List Document) (context : Entries → Entries)
    (path : List String) (key : String) (done : Entries), LayeredAll items →
    (∀ d ∈ items, isTable d = true) → items ≠ [] → Leads context path →
    key ∉ done.map Prod.fst → ∀ rows r,
    Reading.add r (.row ⟨path, key⟩) =
      some ⟨context (done ++ [(key, .rows (rows ++ [[]]))]), path ++ [key]⟩ →
    ∃ latest, Builds (rowStatements path key items) r
      ⟨context (done ++ [(key, .rows (rows ++ rowsOf items))]), latest⟩
  | [] => fun _ _ _ _ _ _ hne => absurd rfl hne
  | .table entries :: rest => by
      intro context path key done hlayered htables _ hleads hkey rows r hadd
      rw [LayeredAll, Layered] at hlayered
      obtain ⟨opened, hbody⟩ := builds_body (hleads.row hkey rows) hlayered.1.1
        (builds_statementsIn entries _ _ hlayered.1.2 (hleads.row hkey rows))
      have hfirst := Builds.cons hadd hbody
      rw [rowStatements, rowsOf, List.append_cons rows]
      by_cases hrest : rest = []
      · rw [hrest, rowStatements, rowsOf, List.append_nil, List.append_nil]
        exact ⟨opened, hfirst⟩
      · obtain ⟨latest, hlatest⟩ := builds_rowStatements rest context path key done hlayered.2
          (fun d hd => htables d (List.mem_cons_of_mem _ hd)) hrest hleads hkey
          (rows ++ [itemsIn entries]) _ (add_next_row hleads hkey _ opened)
        exact ⟨latest, hfirst.append hlatest⟩
  | .null :: _ | .bool _ :: _ | .int _ :: _ | .float _ :: _ | .text _ :: _ | .list _ :: _
  | .unreadable :: _ => by
      intro _ _ _ _ _ htables
      exact nomatch htables _ List.mem_cons_self

theorem builds_statementsIn : ∀ (entries : List (String × Document))
    (context : Entries → Entries) (path : List String), LayeredEntries entries →
    Leads context path → ∀ done opened, ((done ++ tablesIn entries).map Prod.fst).Nodup →
    ∃ latest, Builds (statementsIn path entries) ⟨context done, opened⟩
      ⟨context (done ++ tablesIn entries), latest⟩
  | [] => by
      intro context path _ _ done opened _
      rw [statementsIn, tablesIn, List.append_nil]
      exact ⟨opened, Builds.nil _⟩
  | (key, d) :: rest => by
      intro context path hlayered hleads done opened hkeys
      rw [LayeredEntries] at hlayered
      rw [tablesIn] at hkeys ⊢
      rw [statementsIn]
      by_cases hd : hasHeader d = true
      · rw [if_pos hd] at hkeys ⊢
        rw [if_pos hd]
        obtain ⟨opened', hfirst⟩ := builds_statementsOf d context path key done hlayered.2.1 hd
          hleads (key_not_mem hkeys) opened
        rw [List.append_cons] at hkeys ⊢
        obtain ⟨latest, hlatest⟩ := builds_statementsIn rest context path hlayered.2.2 hleads
          _ opened' hkeys
        exact ⟨latest, hfirst.append hlatest⟩
      · rw [if_neg hd] at hkeys ⊢
        rw [if_neg hd, List.nil_append]
        exact builds_statementsIn rest context path hlayered.2.2 hleads done opened hkeys

end

/-- **The statements of a document build it**, in its own order. -/
theorem builds_document {entries : List (String × Document)}
    (hlayered : Layered (.table entries)) :
    ∃ r, Builds (pairStatements entries ++ statementsIn [] entries) ⟨[], []⟩ r
      ∧ entriesToDocument r.entries = entries := by
  rw [Layered] at hlayered
  obtain ⟨latest, hbody⟩ := builds_body leads_nil hlayered.1
    (builds_statementsIn entries id [] hlayered.2 leads_nil)
  exact ⟨_, hbody, entriesToDocument_itemsIn entries⟩

end NginxConfig.Toml
