/-!
# Tables

A table maps texts to values and remembers the order in which its keys came
in.  Setting a key that is present keeps its place; a new key goes to the end.
The keys are distinct, which is part of the type.
-/

namespace NginxConfig

/-- Replaces the value of `key` in place, or adds the pair at the end. -/
def setEntry {α : Type} (key : String) (value : α) : List (String × α) → List (String × α)
  | [] => [(key, value)]
  | (k, v) :: rest => if k = key then (key, value) :: rest else (k, v) :: setEntry key value rest

section Entries

variable {α : Type}

theorem keys_setEntry (key : String) (value : α) (l : List (String × α)) :
    (setEntry key value l).map Prod.fst =
      if key ∈ l.map Prod.fst then l.map Prod.fst else l.map Prod.fst ++ [key] := by
  induction l with
  | nil => simp [setEntry]
  | cons p rest ih =>
    obtain ⟨k, v⟩ := p
    by_cases hk : k = key
    · simp [setEntry, hk]
    · have hk' : key ≠ k := fun h => hk h.symm
      simp only [setEntry, if_neg hk, List.map_cons, ih, List.mem_cons, hk', false_or]
      split <;> simp

theorem keys_setEntry_nodup (key : String) (value : α) {l : List (String × α)}
    (h : (l.map Prod.fst).Nodup) : ((setEntry key value l).map Prod.fst).Nodup := by
  rw [keys_setEntry]
  split
  · exact h
  · next hk =>
    rw [List.nodup_append]
    exact ⟨h, by simp, fun a ha b hb => by
      simp only [List.mem_singleton] at hb
      subst hb
      exact fun hab => hk (hab ▸ ha)⟩

end Entries

/-- An insertion-ordered mapping from texts. -/
structure Table (α : Type) where
  entries : List (String × α)
  keys_nodup : (entries.map Prod.fst).Nodup

namespace Table

variable {α : Type}

def empty : Table α := ⟨[], List.nodup_nil⟩

instance : EmptyCollection (Table α) := ⟨empty⟩

instance : Inhabited (Table α) := ⟨empty⟩

def keys (t : Table α) : List String :=
  t.entries.map Prod.fst

def size (t : Table α) : Nat :=
  t.entries.length

def isEmpty (t : Table α) : Bool :=
  t.entries.isEmpty

def get? (t : Table α) (key : String) : Option α :=
  t.entries.lookup key

def contains (t : Table α) (key : String) : Bool :=
  (t.get? key).isSome

def insert (t : Table α) (key : String) (value : α) : Table α :=
  ⟨setEntry key value t.entries, keys_setEntry_nodup key value t.keys_nodup⟩

/-- Sets every pair of a list, from first to last. -/
def insertAll (t : Table α) (pairs : List (String × α)) : Table α :=
  pairs.foldl (fun t p => t.insert p.1 p.2) t

/-- A key that comes again keeps its first place and takes its last value. -/
def ofList (pairs : List (String × α)) : Table α :=
  empty.insertAll pairs

/-- The table without some of its keys, in the order it had. -/
def without (t : Table α) (excluded : List String) : Table α :=
  ⟨t.entries.filter (fun p => !excluded.contains p.1),
    t.keys_nodup.sublist (List.filter_sublist.map _)⟩

/-- Equality of the two as mappings: the order of the keys does not count. -/
def sameAs (same : α → α → Bool) (t u : Table α) : Bool :=
  t.size == u.size &&
    t.entries.all fun p => (u.get? p.1).any (same p.2)

@[ext] theorem ext {t u : Table α} (h : t.entries = u.entries) : t = u := by
  cases t; cases u; simp_all

@[simp] theorem entries_empty : (∅ : Table α).entries = [] := rfl

@[simp] theorem keys_insert (t : Table α) (key : String) (value : α) :
    (t.insert key value).keys = if key ∈ t.keys then t.keys else t.keys ++ [key] :=
  keys_setEntry key value t.entries

/-- What was just set is found, and every other key is as before. -/
theorem get?_insert (t : Table α) (key : String) (value : α) (k : String) :
    (t.insert key value).get? k = if k = key then some value else t.get? k := by
  simp only [get?, insert]
  induction t.entries with
  | nil =>
    by_cases hk : k = key
    · simp [setEntry, hk]
    · simp [setEntry, List.lookup_cons, hk, beq_false_of_ne hk]
  | cons p rest ih =>
    obtain ⟨q, v⟩ := p
    by_cases hq : q = key
    · subst hq
      by_cases hk : k = q
      · simp [setEntry, hk]
      · simp [setEntry, List.lookup_cons, hk, beq_false_of_ne hk]
    · by_cases hk : k = q
      · subst hk
        simp [setEntry, hq]
      · simp [setEntry, hq, List.lookup_cons, beq_false_of_ne hk, ih]

end Table

end NginxConfig
