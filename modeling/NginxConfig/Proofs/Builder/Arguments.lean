import Mathlib.Data.List.Perm.Basic
import NginxConfig.Proofs.Builder.Openings

/-!
# Arguments that may be given once

An argument can be given by position and under any of its names. To look it up takes the
first of these places that there is, and to ask for a single one counts them all; the two
agree wherever the count lets through (`Args.single_eq_ok_iff`). What is counted are
distinct named options, since neither the names of an argument nor the options repeat
(`Args.given_perm`), and the options that are left over are all others
(`Args.optionsFor_append_perm`).
-/

namespace NginxConfig

/-- The one entry of a key, if there is one. -/
theorem Table.map_snd_filter_fst {α : Type} (t : Table α) (key : String) :
    (t.entries.filter fun p => p.1 = key).map Prod.snd = (t.get? key).toList := by
  obtain ⟨entries, hkeys⟩ := t
  simp only [get?]
  induction entries with
  | nil => rfl
  | cons p rest ih =>
      obtain ⟨k, v⟩ := p
      rw [List.map_cons, List.nodup_cons] at hkeys
      rw [List.lookup_cons]
      by_cases hk : k = key
      · subst hk
        -- The key does not come again.
        have hrest : rest.filter (fun p => p.1 = k) = [] :=
          List.filter_eq_nil_iff.mpr fun p hp => by
            simpa using fst_ne_of_not_mem hkeys.1 hp
        rw [List.filter_cons_of_pos (by simp), hrest, beq_self_eq_true]
        rfl
      · rw [List.filter_cons_of_neg (by simpa using hk), ih hkeys.2,
          beq_false_of_ne (Ne.symm hk)]

/-- A key that is left out is not there any more. -/
theorem Table.get?_without_of_mem {α : Type} (t : Table α) {excluded : List String} {key : String}
    (h : key ∈ excluded) : (t.without excluded).get? key = none := by
  refine get?_eq_none.mpr fun hm => ?_
  obtain ⟨p, hp, rfl⟩ := List.mem_map.mp hm
  have hout := (List.mem_filter.mp hp).2
  rw [List.contains_iff_mem.mpr h] at hout
  cases hout

namespace Args

/-- The named options that give an argument. -/
def optionsFor (a : Args) (keys : List String) : List (String × Value) :=
  a.options.entries.filter fun p => p.1 ∈ keys

variable (a : Args) (operation : String) (index : Nat) {keys : List String}

/-! ## Two kinds of options -/

/-- Every option either gives the argument or is left over. -/
theorem optionsFor_append_perm (keys : List String) :
    (a.optionsFor keys ++ (a.optionsExcept keys).entries).Perm a.options.entries := by
  have hrest : (a.optionsExcept keys).entries =
      a.options.entries.filter fun p => ¬ p.1 ∈ keys :=
    List.filter_congr fun p _ => by simp
  rw [hrest, optionsFor]
  simpa using List.filter_append_perm (fun p : String × Value => decide (p.1 ∈ keys))
    a.options.entries

/-- A further name brings its own option. -/
theorem optionsFor_cons_perm {key : String} (h : key ∉ keys) :
    (a.optionsFor (key :: keys)).Perm
      ((a.options.entries.filter fun p => p.1 = key) ++ a.optionsFor keys) := by
  have hfirst : (a.optionsFor (key :: keys)).filter (fun p => p.1 = key) =
      a.options.entries.filter fun p => p.1 = key := by
    rw [optionsFor, List.filter_filter]
    refine List.filter_congr fun p _ => ?_
    by_cases hp : p.1 = key <;> simp [hp]
  have hothers : (a.optionsFor (key :: keys)).filter (fun p => ¬ p.1 = key) =
      a.optionsFor keys := by
    rw [optionsFor, List.filter_filter, optionsFor]
    refine List.filter_congr fun p _ => ?_
    by_cases hp : p.1 = key
    · simp [hp, h]
    · simp [hp]
  have hsplit := List.filter_append_perm (fun p : String × Value => decide (p.1 = key))
    (a.optionsFor (key :: keys))
  rw [hfirst] at hsplit
  refine hsplit.symm.trans (List.Perm.append_left _ ?_)
  rw [← hothers]
  simp

/-- Distinct names find distinct options. -/
theorem filterMap_named?_perm (hkeys : keys.Nodup) :
    (keys.filterMap a.named?).Perm ((a.optionsFor keys).map Prod.snd) := by
  induction keys with
  | nil => simp [optionsFor]
  | cons key rest ih =>
      rw [List.nodup_cons] at hkeys
      have hcons : (key :: rest).filterMap a.named? =
          (a.named? key).toList ++ rest.filterMap a.named? := by
        rw [List.filterMap_cons]
        cases a.named? key <;> rfl
      have hperm := (a.optionsFor_cons_perm hkeys.1).map Prod.snd
      rw [List.map_append, a.options.map_snd_filter_fst] at hperm
      rw [hcons]
      exact ((ih hkeys.2).append_left _).trans hperm.symm

/-- What is given for an argument is the positional value and the options for it. -/
theorem given_perm (hkeys : keys.Nodup) :
    (a.given index keys).Perm
      ((a.get? index).toList ++ (a.optionsFor keys).map Prod.snd) :=
  (a.filterMap_named?_perm hkeys).append_left _

/-! ## A single value -/

theorem single_eq_error_iff (keys : List String) {e : Error} :
    a.single operation index keys = .error e ↔
      2 ≤ a.places index keys ∧ e = .invalidArguments operation (.repeated keys) := by
  rw [← length_given]
  by_cases h : 2 ≤ (a.given index keys).length
  · rw [single_of_lt h, Except.error.injEq, eq_comm]
    exact (and_iff_right h).symm
  · rw [single_of_le (Nat.le_of_lt_succ (Nat.lt_of_not_le h))]
    exact iff_of_false (fun hok => nomatch hok) fun hboth => h hboth.1

theorem single_eq_ok_iff (keys : List String) {v : Option Value} :
    a.single operation index keys = .ok v ↔
      a.places index keys < 2 ∧ v = a.lookup? index keys := by
  rw [← length_given, ← head?_given]
  by_cases h : (a.given index keys).length < 2
  · rw [single_of_le (Nat.le_of_lt_succ h), Except.ok.injEq, eq_comm]
    exact (and_iff_right h).symm
  · rw [single_of_lt (Nat.lt_of_not_le fun hle => h (Nat.lt_succ_of_le hle))]
    exact iff_of_false (fun herror => nomatch herror) fun hboth => h hboth.1

/-- A single value is all that is given. -/
theorem toList_of_single (hkeys : keys.Nodup) {v : Option Value}
    (h : a.single operation index keys = .ok v) :
    v.toList = (a.get? index).toList ++ (a.optionsFor keys).map Prod.snd := by
  obtain ⟨hfew, rfl⟩ := (a.single_eq_ok_iff operation index keys).mp h
  have hperm := a.given_perm index hkeys
  rw [← length_given] at hfew
  rw [← head?_given]
  match hgiven : a.given index keys with
  | [] =>
      rw [hgiven] at hperm
      exact hperm.nil_eq
  | [value] =>
      rw [hgiven] at hperm
      exact hperm.singleton_eq
  | _ :: _ :: _ =>
      rw [hgiven, List.length_cons, List.length_cons] at hfew
      omega

/-- **An argument is given once or refused, and no option is lost.** To ask for a single
value fails exactly if the argument is given in two places, of position and distinct
names, and otherwise finds what a look-up finds. The named options fall into those that
give the argument and those that are left over, which keep their order and their values.
A value that is found is all that position and options for the argument give, so what is
not left over is that value. -/
theorem single_and_rest (hkeys : keys.Nodup) :
    (∀ e, a.single operation index keys = .error e ↔
        2 ≤ (a.get? index).isSome.toNat + keys.countP a.options.contains
          ∧ e = .invalidArguments operation (.repeated keys))
      ∧ (∀ v, a.single operation index keys = .ok v ↔
          (a.get? index).isSome.toNat + keys.countP a.options.contains < 2
            ∧ v = a.lookup? index keys)
      ∧ (a.optionsFor keys ++ (a.optionsExcept keys).entries).Perm a.options.entries
      ∧ (a.optionsExcept keys).entries.Sublist a.options.entries
      ∧ (∀ key, (a.optionsExcept keys).get? key =
          if key ∈ keys then .none else a.options.get? key)
      ∧ (∀ p ∈ a.optionsFor keys, p.1 ∈ keys)
      ∧ (a.given index keys).Perm ((a.get? index).toList ++ (a.optionsFor keys).map Prod.snd)
      ∧ ∀ v, a.single operation index keys = .ok v →
          v.toList = (a.get? index).toList ++ (a.optionsFor keys).map Prod.snd := by
  refine ⟨fun e => a.single_eq_error_iff operation index keys,
    fun v => a.single_eq_ok_iff operation index keys, a.optionsFor_append_perm keys,
    List.filter_sublist, fun key => ?_, fun p hp => of_decide_eq_true (List.mem_filter.mp hp).2,
    a.given_perm index hkeys, fun v => a.toList_of_single operation index hkeys⟩
  split
  · next hkey => exact a.options.get?_without_of_mem hkey
  · next hkey => exact a.options.get?_without hkey

/-- A host name under its second name, with an option that is left over. -/
theorem single_and_rest_host :
    let a : Args := ⟨[], .ofList [("listen", .int 80), ("name", .str "a.test")]⟩
    (["hostname", "name"] : List String).Nodup
      ∧ a.single "add_server" 0 ["hostname", "name"] = .ok (some (.str "a.test"))
      ∧ a.optionsFor ["hostname", "name"] = [("name", .str "a.test")]
      ∧ (a.optionsExcept ["hostname", "name"]).entries = [("listen", .int 80)] := by
  intro a
  have hkeys : (["hostname", "name"] : List String).Nodup := by decide
  obtain ⟨-, hok, -⟩ := single_and_rest a "add_server" 0 hkeys
  exact ⟨hkeys, (hok (some (.str "a.test"))).mpr ⟨by decide, rfl⟩, rfl, rfl⟩

end Args

end NginxConfig
