import NginxConfig.Table

/-!
# One table over another

`insertAll` sets the pairs of a list one at a time, and each of them either
finds its key or goes to the end. When the list is itself a table, all of them
can be told at once: `overlay` keeps the places of the keys that are there,
with the new values, and puts the keys that are not there behind them, in
their order (`insertAll_eq_overlay`).
-/

namespace NginxConfig.Table

variable {α : Type}

/-! ## Keys -/

theorem fst_ne_of_not_mem {key : String} {l : List (String × α)} (h : key ∉ l.map Prod.fst)
    {p : String × α} (hp : p ∈ l) : p.1 ≠ key :=
  fun heq => h (heq ▸ List.mem_map_of_mem hp)

theorem lookup_eq_none {key : String} {l : List (String × α)} :
    l.lookup key = none ↔ key ∉ l.map Prod.fst := by
  rw [List.lookup_eq_none_iff]
  constructor
  · intro h hm
    obtain ⟨p, hp, rfl⟩ := List.mem_map.mp hm
    simpa using h p hp
  · intro h p hp
    exact bne_iff_ne.mpr (Ne.symm (fst_ne_of_not_mem h hp))

theorem lookup_map_snd {β : Type} (f : α → β) (key : String) (l : List (String × α)) :
    (l.map fun (k, v) => (k, f v)).lookup key = (l.lookup key).map f := by
  induction l with
  | nil => rfl
  | cons p rest ih =>
      obtain ⟨k, v⟩ := p
      simp only [List.map_cons, List.lookup_cons, ih]
      cases key == k <;> rfl

theorem get?_eq_none {t : Table α} {key : String} : t.get? key = none ↔ key ∉ t.keys :=
  lookup_eq_none

theorem contains_eq_true {t : Table α} {key : String} : t.contains key = true ↔ key ∈ t.keys := by
  rw [contains, Option.isSome_iff_ne_none, ne_eq, get?_eq_none, Classical.not_not]

/-- To leave out keys that are not there changes nothing. -/
theorem without_eq_self {t : Table α} {excluded : List String}
    (h : ∀ key ∈ excluded, key ∉ t.keys) : t.without excluded = t := by
  refine ext (List.filter_eq_self.mpr fun p hp => ?_)
  have hkey : p.1 ∉ excluded := fun hm => h p.1 hm (List.mem_map_of_mem hp)
  simpa using hkey

theorem lookup_filter_fst (keep : String → Bool) {key : String} (h : keep key = true) :
    ∀ l : List (String × α), (l.filter fun p => keep p.1).lookup key = l.lookup key
  | [] => rfl
  | (k, v) :: rest => by
      rw [List.filter_cons, List.lookup_cons]
      by_cases hk : key = k
      · subst hk
        rw [if_pos h, List.lookup_cons, beq_self_eq_true]
      · have hskip : (key == k) = false := beq_false_of_ne hk
        rw [hskip, ← lookup_filter_fst keep h rest]
        split
        · rw [List.lookup_cons, hskip]
        · rfl

/-- What is not left out is found as before. -/
theorem get?_without (t : Table α) {excluded : List String} {key : String}
    (h : key ∉ excluded) : (t.without excluded).get? key = t.get? key :=
  lookup_filter_fst (!excluded.contains ·) (by simpa using h) t.entries

/-! ## One entry -/

theorem setEntry_of_not_mem {key : String} {value : α} :
    ∀ {l : List (String × α)}, key ∉ l.map Prod.fst → setEntry key value l = l ++ [(key, value)]
  | [], _ => rfl
  | (k, v) :: rest, h => by
      rw [List.map_cons, List.mem_cons, not_or] at h
      rw [setEntry, if_neg (Ne.symm h.1), setEntry_of_not_mem h.2, List.cons_append]

theorem setEntry_of_mem {key : String} {value : α} :
    ∀ {l : List (String × α)}, (l.map Prod.fst).Nodup → key ∈ l.map Prod.fst →
      setEntry key value l = l.map fun p => if p.1 = key then (key, value) else p
  | (k, v) :: rest, hn, h => by
      rw [List.map_cons, List.nodup_cons] at hn
      rw [setEntry, List.map_cons]
      by_cases hk : k = key
      · rw [if_pos hk, if_pos hk]
        -- The key does not come again.
        have hid : (rest.map fun p => if p.1 = key then (key, value) else p) = rest.map id :=
          List.map_congr_left fun p hp => if_neg (hk ▸ fst_ne_of_not_mem hn.1 hp)
        rw [hid, List.map_id]
      · rw [if_neg hk, if_neg hk]
        rw [List.map_cons, List.mem_cons] at h
        rw [setEntry_of_mem hn.2 (h.resolve_left (Ne.symm hk))]

/-! ## All entries -/

/-- The first table with the values of the second where it has them, and then
the rest of the second. -/
def overlay (base extra : Table α) : Table α where
  entries := (base.entries.map fun p => (p.1, (extra.get? p.1).getD p.2)) ++
    extra.entries.filter fun p => p.1 ∉ base.keys
  keys_nodup := by
    rw [List.map_append, List.map_map, List.nodup_append]
    refine ⟨base.keys_nodup, extra.keys_nodup.sublist (List.filter_sublist.map _), ?_⟩
    rintro a ha b hb rfl
    obtain ⟨p, hp, rfl⟩ := List.mem_map.mp hb
    exact of_decide_eq_true (List.mem_filter.mp hp).2 ha

theorem entries_insertAll :
    ∀ {pairs : List (String × α)} {t : Table α}, (pairs.map Prod.fst).Nodup →
      (t.insertAll pairs).entries =
        (t.entries.map fun p => (p.1, (pairs.lookup p.1).getD p.2)) ++
          pairs.filter fun p => p.1 ∉ t.keys
  | [], t, _ => by
      have hid : (t.entries.map fun p => (p.1, (([] : List (String × α)).lookup p.1).getD p.2)) =
          t.entries :=
        List.map_id t.entries
      rw [hid, List.filter_nil, List.append_nil]
      rfl
  | (key, value) :: rest, t, hn => by
      rw [List.map_cons, List.nodup_cons] at hn
      have hstep : t.insertAll ((key, value) :: rest) = (t.insert key value).insertAll rest := rfl
      have hlookup : rest.lookup key = none := lookup_eq_none.mpr hn.1
      have hother : ∀ k ≠ key, ((key, value) :: rest).lookup k = rest.lookup k := fun k hk => by
        rw [List.lookup_cons, beq_false_of_ne hk]
      rw [hstep, entries_insertAll hn.2, keys_insert]
      by_cases hkey : key ∈ t.keys
      · have hset : (t.insert key value).entries = _ := setEntry_of_mem t.keys_nodup hkey
        rw [if_pos hkey, hset, List.map_map, List.filter_cons_of_neg (by simpa using hkey)]
        congr 1
        refine List.map_congr_left fun p _ => ?_
        by_cases hp : p.1 = key
        · simp [hp, hlookup]
        · simp [hp, hother p.1 hp]
      · have hset : (t.insert key value).entries = _ := setEntry_of_not_mem hkey
        rw [if_neg hkey, hset, List.map_append, List.filter_cons_of_pos (by simpa using hkey),
          List.append_assoc]
        congr 1
        · refine List.map_congr_left fun p hp => ?_
          rw [hother p.1 (fst_ne_of_not_mem hkey hp)]
        · have hfilter : (rest.filter fun p => p.1 ∉ t.keys ++ [key]) =
              rest.filter fun p => p.1 ∉ t.keys := by
            refine List.filter_congr fun p hp => ?_
            simp [fst_ne_of_not_mem hn.1 hp]
          rw [hfilter, List.map_singleton, hlookup]
          rfl

/-- To set all entries of a table is to put that table over the first. -/
theorem insertAll_eq_overlay (t extra : Table α) : t.insertAll extra.entries = t.overlay extra :=
  ext (entries_insertAll extra.keys_nodup)

/-- Keys keep their places, and a new one goes to the end. -/
example : ((ofList [("a", 1), ("b", 2)]).overlay (ofList [("c", 3), ("a", 4)])).entries =
    [("a", 4), ("b", 2), ("c", 3)] := by
  decide

/-- New keys go behind those that are there, and change none of them. -/
theorem entries_insertAll_of_new {pairs : List (String × α)} {t : Table α}
    (hn : (pairs.map Prod.fst).Nodup) (hnew : ∀ key ∈ pairs.map Prod.fst, key ∉ t.keys) :
    (t.insertAll pairs).entries = t.entries ++ pairs := by
  have hold : (t.entries.map fun p => (p.1, (pairs.lookup p.1).getD p.2)) = t.entries.map id := by
    refine List.map_congr_left fun p hp => ?_
    have hkey : p.1 ∉ pairs.map Prod.fst := fun hm => hnew p.1 hm (List.mem_map_of_mem hp)
    rw [lookup_eq_none.mpr hkey]
    rfl
  have hall : (pairs.filter fun p => p.1 ∉ t.keys) = pairs :=
    List.filter_eq_self.mpr fun p hp => decide_eq_true (hnew p.1 (List.mem_map_of_mem hp))
  rw [entries_insertAll hn, hold, List.map_id, hall]

theorem empty_overlay (t : Table α) : (∅ : Table α).overlay t = t := by
  refine ext ?_
  show [] ++ t.entries.filter (fun p => p.1 ∉ (∅ : Table α).keys) = t.entries
  rw [List.nil_append]
  exact List.filter_eq_self.mpr fun p _ => rfl

end NginxConfig.Table
