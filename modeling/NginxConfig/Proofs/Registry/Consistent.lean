import NginxConfig.Proofs.Table
import NginxConfig.Registry

/-!
# Two records of the plugins

A registry keeps its plugins in their order, and a table that leads from an
operation to the place of its plugin. `Consistent` says that the two agree. A
plugin is recorded without a look at what is there, and the table would take a
second holder of an operation without complaint: `Consistent.record` says what
has to be new for the two to go on agreeing.
-/

namespace NginxConfig.Registry

/-- The table of operations is what the recorded plugins make it. -/
structure Consistent (r : Registry) : Prop where
  names_nodup : (r.plugins.toList.map Registered.name).Nodup
  operationNames_eq : r.operationNames = r.plugins.toList.flatMap Registered.operations
  get?_methods : ∀ op index code, r.methods.get? op = some (index, code) ↔
    ∃ q, r.plugins[index]? = some q ∧ q.plugin.operations.get? op = some code

theorem mem_operations {q : Registered} {op : String} :
    op ∈ q.operations ↔ ∃ code, q.plugin.operations.get? op = some code := by
  rw [Registered.operations, ← Table.contains_eq_true, Table.contains, Option.isSome_iff_exists]

namespace Consistent

theorem empty : Registry.empty.Consistent where
  names_nodup := List.nodup_nil
  operationNames_eq := rfl
  get?_methods := by
    intro op index code
    constructor
    · intro h
      cases h
    · rintro ⟨q, hq, -⟩
      cases hq

variable {r : Registry}

theorem lookup?_eq_some (h : r.Consistent) {op : String} {q : Registered} {code : Operation} :
    r.lookup? op = some (q, code) ↔
      q ∈ r.plugins ∧ q.plugin.operations.get? op = some code := by
  rw [lookup?, Option.bind_eq_some_iff]
  constructor
  · rintro ⟨⟨index, code'⟩, hget, hfound⟩
    obtain ⟨q', hq', heq⟩ := Option.map_eq_some_iff.mp hfound
    obtain ⟨rfl, rfl⟩ := Prod.mk.inj heq
    obtain ⟨q, hq, hcode⟩ := (h.get?_methods op index code').mp hget
    obtain rfl := Option.some.inj (hq.symm.trans hq')
    exact ⟨Array.mem_of_getElem? hq, hcode⟩
  · rintro ⟨hmem, hcode⟩
    obtain ⟨index, hq⟩ := Array.mem_iff_getElem?.mp hmem
    refine ⟨(index, code), (h.get?_methods op index code).mpr ⟨q, hq, hcode⟩, ?_⟩
    simp only [hq, Option.map_some]

/-- The table leads to a plugin whenever it leads anywhere. -/
theorem lookup?_eq_none (h : r.Consistent) {op : String} :
    r.lookup? op = none ↔ r.contains op = false := by
  rw [lookup?, contains, Table.contains, Option.isSome_eq_false_iff, Option.isNone_iff_eq_none]
  cases hget : r.methods.get? op with
  | none => simp
  | some found =>
      obtain ⟨q, hq, -⟩ := (h.get?_methods op found.1 found.2).mp hget
      simp [hq]

theorem index_lt (h : r.Consistent) {op : String} {index : Nat} {code : Operation}
    (hget : r.methods.get? op = some (index, code)) : index < r.size := by
  obtain ⟨q, hq, -⟩ := (h.get?_methods op index code).mp hget
  exact (Array.getElem?_eq_some_iff.mp hq).1

/-- No two recorded plugins export the same operation. -/
theorem exporter_unique (h : r.Consistent) {op : String} {q q' : Registered}
    (hq : q ∈ r.plugins) (hop : op ∈ q.operations) (hq' : q' ∈ r.plugins)
    (hop' : op ∈ q'.operations) : q = q' := by
  obtain ⟨code, hcode⟩ := mem_operations.mp hop
  obtain ⟨code', hcode'⟩ := mem_operations.mp hop'
  have hfound := h.lookup?_eq_some.mpr ⟨hq, hcode⟩
  rw [h.lookup?_eq_some.mpr ⟨hq', hcode'⟩] at hfound
  exact (Prod.mk.inj (Option.some.inj hfound)).1.symm

theorem mem_operationNames (h : r.Consistent) {op : String} :
    op ∈ r.operationNames ↔ ∃ q ∈ r.plugins, op ∈ q.operations := by
  simp only [h.operationNames_eq, List.mem_flatMap, Array.mem_toList_iff]

end Consistent

/-! ## One more plugin -/

section Record

variable {r : Registry} {id : InstanceId} {p : Plugin}

/-- Operations that are new to the table come behind the others. -/
theorem entries_record (hnew : ∀ op ∈ p.operations.keys, op ∉ r.operationNames) :
    (r.record id p).methods.entries =
      r.methods.entries ++ p.operations.entries.map fun (op, code) => (op, (r.size, code)) := by
  have hkeys : (p.operations.entries.map fun (op, code) => (op, (r.size, code))).map Prod.fst =
      p.operations.keys := by
    rw [List.map_map]
    rfl
  refine Table.entries_insertAll_of_new ?_ ?_
  · rw [hkeys]
    exact p.operations.keys_nodup
  · rw [hkeys]
    exact hnew

theorem get?_record (hnew : ∀ op ∈ p.operations.keys, op ∉ r.operationNames) (op : String) :
    (r.record id p).methods.get? op =
      (r.methods.get? op).or ((p.operations.get? op).map (r.size, ·)) := by
  rw [Table.get?, entries_record hnew, List.lookup_append, Table.lookup_map_snd]
  rfl

/-- A plugin with a new name and new operations keeps the two records in
agreement. -/
theorem Consistent.record (h : r.Consistent) (hname : ∀ q ∈ r.plugins, q.name ≠ p.name)
    (hops : ∀ op ∈ p.operations.keys, ∀ q ∈ r.plugins, op ∉ q.operations) :
    (r.record id p).Consistent := by
  have hnew : ∀ op ∈ p.operations.keys, op ∉ r.operationNames := by
    intro op hop hmem
    obtain ⟨q, hq, hexported⟩ := h.mem_operationNames.mp hmem
    exact hops op hop q hq hexported
  have hplugins : (r.record id p).plugins.toList = r.plugins.toList ++ [⟨id, p⟩] :=
    Array.toList_push
  refine ⟨?_, ?_, fun op index code => ?_⟩
  · rw [hplugins, List.map_append, List.nodup_append]
    refine ⟨h.names_nodup, List.nodup_cons.mpr ⟨List.not_mem_nil, List.nodup_nil⟩, ?_⟩
    rintro name hold name' hlast rfl
    obtain ⟨q, hq, rfl⟩ := List.mem_map.mp hold
    exact hname q (Array.mem_toList_iff.mp hq) (List.mem_singleton.mp hlast)
  · have hold := h.operationNames_eq
    rw [operationNames, Table.keys] at hold
    rw [hplugins, List.flatMap_append, List.flatMap_singleton, operationNames, Table.keys,
      entries_record hnew, List.map_append, List.map_map, hold]
    rfl
  · rw [get?_record hnew]
    have hplace : (r.record id p).plugins[index]? =
        if index = r.plugins.size then some ⟨id, p⟩ else r.plugins[index]? := Array.getElem?_push
    rw [hplace]
    cases hold : r.methods.get? op with
    | some found =>
        -- The operation has a holder, so it is none of those that come in.
        have hmem : op ∈ r.operationNames := by
          rw [operationNames, ← Table.contains_eq_true, Table.contains, hold]
          rfl
        rw [Option.some_or, ← hold, h.get?_methods]
        constructor
        · rintro ⟨q, hq, hcode⟩
          have hlt := (Array.getElem?_eq_some_iff.mp hq).1
          exact ⟨q, by rw [if_neg (Nat.ne_of_lt hlt)]; exact hq, hcode⟩
        · rintro ⟨q, hq, hcode⟩
          split at hq
          · obtain rfl := Option.some.inj hq
            exact absurd hmem (hnew op (mem_operations.mpr ⟨code, hcode⟩))
          · exact ⟨q, hq, hcode⟩
    | none =>
        rw [Option.none_or, Option.map_eq_some_iff]
        constructor
        · rintro ⟨code', hcode, heq⟩
          obtain ⟨rfl, rfl⟩ := Prod.mk.inj heq
          exact ⟨⟨id, p⟩, if_pos rfl, hcode⟩
        · rintro ⟨q, hq, hcode⟩
          split at hq
          · next hindex =>
              obtain rfl := Option.some.inj hq
              exact ⟨code, hcode, by rw [hindex, size]⟩
          · have hfound := (h.get?_methods op index code).mpr ⟨q, hq, hcode⟩
            rw [hold] at hfound
            cases hfound

end Record

end NginxConfig.Registry
