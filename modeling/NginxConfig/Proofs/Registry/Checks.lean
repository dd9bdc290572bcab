import NginxConfig.Proofs.Registry.Consistent

/-!
# What a registry accepts

The checks before a registration, told apart from how they are made: `Accepts`
says what a plugin has to be like, and `Rejects` says which error comes out,
with all that must have passed before. In a consistent registry the two are
exact (`Consistent.rejection?_eq_none`, `Consistent.rejection?_eq_some`).
-/

namespace NginxConfig

/-! ## Names of operations -/

/-- A letter, a digit or an underscore, in ASCII. -/
def IsWordChar (c : Char) : Prop :=
  'a' ≤ c ∧ c ≤ 'z' ∨ 'A' ≤ c ∧ c ≤ 'Z' ∨ '0' ≤ c ∧ c ≤ '9' ∨ c = '_'

/-- A word that does not begin with a digit. -/
def IsIdentifier (name : String) : Prop :=
  ∃ c cs, name.toList = c :: cs ∧ ¬ ('0' ≤ c ∧ c ≤ '9') ∧ ∀ d ∈ c :: cs, IsWordChar d

theorem isDigit_iff {c : Char} : c.isDigit = true ↔ '0' ≤ c ∧ c ≤ '9' := by
  show (decide ('0' ≤ c) && decide (c ≤ '9')) = true ↔ _
  rw [Bool.and_eq_true, decide_eq_true_iff, decide_eq_true_iff]

theorem isUpper_iff {c : Char} : c.isUpper = true ↔ 'A' ≤ c ∧ c ≤ 'Z' :=
  decide_eq_true_iff

theorem isLower_iff {c : Char} : c.isLower = true ↔ 'a' ≤ c ∧ c ≤ 'z' := by
  show (decide ('a' ≤ c) && decide (c ≤ 'z')) = true ↔ _
  rw [Bool.and_eq_true, decide_eq_true_iff, decide_eq_true_iff]

theorem isWordChar_iff {c : Char} : (c.isAlphanum || c == '_') = true ↔ IsWordChar c := by
  show (((c.isUpper || c.isLower) || c.isDigit) || c == '_') = true ↔ _
  rw [Bool.or_eq_true, Bool.or_eq_true, Bool.or_eq_true, isUpper_iff, isLower_iff, isDigit_iff,
    beq_iff_eq, IsWordChar]
  constructor
  · rintro (((h | h) | h) | h)
    · exact Or.inr (Or.inl h)
    · exact Or.inl h
    · exact Or.inr (Or.inr (Or.inl h))
    · exact Or.inr (Or.inr (Or.inr h))
  · rintro (h | h | h | h)
    · exact Or.inl (Or.inl (Or.inr h))
    · exact Or.inl (Or.inl (Or.inl h))
    · exact Or.inl (Or.inr h)
    · exact Or.inr h

theorem isOperationName_iff {name : String} : isOperationName name = true ↔ IsIdentifier name := by
  rw [isOperationName, IsIdentifier]
  cases hname : name.toList with
  | nil => simp
  | cons c cs =>
      rw [Bool.and_eq_true, Bool.not_eq_true', ← Bool.not_eq_true, isDigit_iff, List.all_eq_true]
      constructor
      · rintro ⟨hdigit, hall⟩
        exact ⟨c, cs, rfl, hdigit, fun d hd => isWordChar_iff.mp (hall d hd)⟩
      · rintro ⟨c', cs', heq, hdigit, hall⟩
        cases heq
        exact ⟨hdigit, fun d hd => isWordChar_iff.mpr (hall d hd)⟩

/-! ## Plugins by themselves -/

namespace Plugin

structure WellFormed (p : Plugin) : Prop where
  named : ∃ c ∈ p.name.toList, Text.isBlank c = false
  identifiers : ∀ op ∈ p.operations.keys, IsIdentifier op

/-- What is wrong with a plugin, whatever the registry. -/
inductive Faulty (p : Plugin) : PluginFault → Prop
  | blankName (h : ∀ c ∈ p.name.toList, Text.isBlank c = true) : p.Faulty .blankName
  | operationName {before after : List String} {op : String}
      (hnamed : ∃ c ∈ p.name.toList, Text.isBlank c = false)
      (hkeys : p.operations.keys = before ++ op :: after)
      (hbefore : ∀ o ∈ before, IsIdentifier o) (hop : ¬ IsIdentifier op) :
      p.Faulty (.operationName op)

variable {p : Plugin}

theorem allBlank_eq_false :
    Text.allBlank p.name = false ↔ ∃ c ∈ p.name.toList, Text.isBlank c = false := by
  simp [Text.allBlank]

theorem not_allBlank (h : ∃ c ∈ p.name.toList, Text.isBlank c = false) :
    ¬ Text.allBlank p.name = true := by
  rw [allBlank_eq_false.mpr h]
  exact Bool.false_ne_true

end Plugin

namespace Registry

theorem faultOf?_eq_none {p : Plugin} : faultOf? p = none ↔ p.WellFormed := by
  rw [faultOf?]
  split
  · next hblank =>
      have hall : ∀ c ∈ p.name.toList, Text.isBlank c = true := List.all_eq_true.mp hblank
      constructor
      · intro h
        cases h
      · rintro ⟨⟨c, hc, hsolid⟩, -⟩
        rw [hall c hc] at hsolid
        cases hsolid
  · next hsolid =>
      rw [Option.map_eq_none_iff, List.find?_eq_none]
      constructor
      · intro h
        refine ⟨Plugin.allBlank_eq_false.mp (Bool.eq_false_iff.mpr hsolid), fun op hop => ?_⟩
        exact isOperationName_iff.mp (by simpa using h op hop)
      · rintro ⟨-, hall⟩ op hop
        rw [isOperationName_iff.mpr (hall op hop)]
        exact Bool.false_ne_true

theorem faultOf?_eq_some {p : Plugin} {fault : PluginFault} :
    faultOf? p = some fault ↔ p.Faulty fault := by
  rw [faultOf?]
  constructor
  · intro h
    split at h
    · next hblank =>
        cases h
        exact .blankName (List.all_eq_true.mp hblank)
    · next hsolid =>
        obtain ⟨op, hop, rfl⟩ := Option.map_eq_some_iff.mp h
        obtain ⟨hbad, before, after, hkeys, hbefore⟩ := List.find?_eq_some_iff_append.mp hop
        refine .operationName (Plugin.allBlank_eq_false.mp (Bool.eq_false_iff.mpr hsolid)) hkeys
          (fun o ho => isOperationName_iff.mp (by simpa using hbefore o ho)) fun hid => ?_
        rw [isOperationName_iff.mpr hid] at hbad
        cases hbad
  · intro h
    cases h with
    | blankName h => exact if_pos (List.all_eq_true.mpr h)
    | @operationName before after op hnamed hkeys hbefore hop =>
        have hfind : p.operations.keys.find? (!isOperationName ·) = some op := by
          refine List.find?_eq_some_iff_append.mpr ⟨?_, before, after, hkeys, fun o ho => ?_⟩
          · rw [Bool.not_eq_true', ← Bool.not_eq_true, isOperationName_iff]
            exact hop
          · rw [isOperationName_iff.mpr (hbefore o ho)]
            rfl
        rw [if_neg (Plugin.not_allBlank hnamed), hfind]
        rfl

/-! ## The checks -/

/-- No plugin may be called by this name, and no recorded one is. -/
structure NewName (r : Registry) (name : String) : Prop where
  not_reserved : name ≠ "top"
  not_taken : ∀ q ∈ r.plugins, q.name ≠ name

/-- An operation that neither a recorded plugin nor the builder has. -/
structure Free (r : Registry) (native : List String) (op : String) : Prop where
  not_exported : ∀ q ∈ r.plugins, op ∉ q.operations
  not_native : op ∉ native

/-- Who has an operation already. A plugin is named before the builder. -/
inductive Clashes (r : Registry) (native : List String) (plugin op : String) : Error → Prop
  | plugin {q : Registered} (hq : q ∈ r.plugins) (hop : op ∈ q.operations) :
      r.Clashes native plugin op (.conflict plugin q.name op)
  | native (hnone : ∀ q ∈ r.plugins, op ∉ q.operations) (hnative : op ∈ native) :
      r.Clashes native plugin op (.conflict plugin "top" op)

/-- What a plugin has to be like. -/
structure Accepts (r : Registry) (native : List String) (p : Instance) : Prop where
  wellFormed : p.plugin.WellFormed
  newName : r.NewName p.plugin.name
  free : ∀ op ∈ p.plugin.operations.keys, r.Free native op
  unowned : p.owner = none

/-- What is accepted can be recorded. -/
theorem Consistent.record_accepted {r : Registry} {native : List String} {p : Instance}
    (h : r.Consistent) (haccepts : r.Accepts native p) : (r.record p.id p.plugin).Consistent :=
  h.record haccepts.newName.not_taken fun op hop => (haccepts.free op hop).not_exported

/-- The first check that a plugin does not pass, after all those before it. -/
inductive Rejects (r : Registry) (native : List String) (p : Instance) : Error → Prop
  | faulty {fault : PluginFault} (hfault : p.plugin.Faulty fault) :
      r.Rejects native p (.invalidPlugin p.plugin.name fault)
  | reserved (hformed : p.plugin.WellFormed) (hname : p.plugin.name = "top") :
      r.Rejects native p (.reservedName p.plugin.name)
  | taken {q : Registered} (hformed : p.plugin.WellFormed) (hfree : p.plugin.name ≠ "top")
      (hq : q ∈ r.plugins) (hname : q.name = p.plugin.name) :
      r.Rejects native p (.conflict p.plugin.name p.plugin.name "name")
  | clash {before after : List String} {op : String} {e : Error}
      (hformed : p.plugin.WellFormed) (hname : r.NewName p.plugin.name)
      (hkeys : p.plugin.operations.keys = before ++ op :: after)
      (hbefore : ∀ o ∈ before, r.Free native o) (hclash : r.Clashes native p.plugin.name op e) :
      r.Rejects native p e
  | owned (hformed : p.plugin.WellFormed) (hname : r.NewName p.plugin.name)
      (hfree : ∀ op ∈ p.plugin.operations.keys, r.Free native op) (howner : p.owner ≠ none) :
      r.Rejects native p (.alreadyOwned p.plugin.name)

section Checks

variable {r : Registry} {native : List String} {plugin op : String} {e : Error}

theorem reservedNames_contains {name : String} :
    reservedNames.contains name = true ↔ name = "top" := by
  rw [List.contains_iff_mem, reservedNames, List.mem_singleton]

theorem get?_isSome {name : String} :
    (r.get? name).isSome = true ↔ ∃ q ∈ r.plugins, q.name = name := by
  rw [get?, List.find?_isSome]
  simp only [Array.mem_toList_iff, beq_iff_eq]

theorem exporter?_eq_none : r.exporter? op = none ↔ ∀ q ∈ r.plugins, op ∉ q.operations := by
  rw [exporter?, List.find?_eq_none]
  simp only [Array.mem_toList_iff, List.contains_iff_mem]

/-- Whoever exports an operation is found, there being no other. -/
theorem Consistent.exporter?_eq_some (h : r.Consistent) {q : Registered} :
    r.exporter? op = some q ↔ q ∈ r.plugins ∧ op ∈ q.operations := by
  have hfound : ∀ {q}, r.exporter? op = some q → q ∈ r.plugins ∧ op ∈ q.operations := fun hq =>
    ⟨Array.mem_toList_iff.mp (List.mem_of_find?_eq_some hq),
      List.contains_iff_mem.mp (List.find?_eq_some_iff_append.mp hq).1⟩
  refine ⟨hfound, fun ⟨hq, hop⟩ => ?_⟩
  cases hex : r.exporter? op with
  | none => exact absurd hop (exporter?_eq_none.mp hex q hq)
  | some q' =>
      obtain ⟨hq', hop'⟩ := hfound hex
      rw [h.exporter_unique hq hop hq' hop']

theorem operationConflict?_eq_none :
    r.operationConflict? native plugin op = none ↔ r.Free native op := by
  rw [operationConflict?]
  split
  · next q hq =>
      constructor
      · intro h
        cases h
      · rintro ⟨hnot, -⟩
        rw [exporter?_eq_none.mpr hnot] at hq
        cases hq
  · next hnone =>
      constructor
      · intro h
        refine ⟨exporter?_eq_none.mp hnone, fun hmem => ?_⟩
        rw [if_pos (List.contains_iff_mem.mpr hmem)] at h
        cases h
      · rintro ⟨-, hnot⟩
        exact if_neg fun h => hnot (List.contains_iff_mem.mp h)

theorem Consistent.operationConflict?_eq_some (h : r.Consistent) :
    r.operationConflict? native plugin op = some e ↔ r.Clashes native plugin op e := by
  rw [operationConflict?]
  constructor
  · intro hsome
    split at hsome
    · next q hq =>
        cases hsome
        obtain ⟨hmem, hop⟩ := h.exporter?_eq_some.mp hq
        exact .plugin hmem hop
    · next hnone =>
        split at hsome
        · next hnative =>
            cases hsome
            exact .native (exporter?_eq_none.mp hnone) (List.contains_iff_mem.mp hnative)
        · cases hsome
  · intro hclash
    cases hclash with
    | plugin hq hop => rw [h.exporter?_eq_some.mpr ⟨hq, hop⟩]
    | native hnone hnative =>
        rw [exporter?_eq_none.mpr hnone]
        exact if_pos (List.contains_iff_mem.mpr hnative)

variable {p : Instance}

/-! ### One check after the other -/

theorem rejection?_of_fault {fault : PluginFault} (h : faultOf? p.plugin = some fault) :
    r.rejection? p native = some (.invalidPlugin p.plugin.name fault) := by
  rw [rejection?, h]

theorem rejection?_of_reserved (hformed : p.plugin.WellFormed) (hname : p.plugin.name = "top") :
    r.rejection? p native = some (.reservedName p.plugin.name) := by
  rw [rejection?, faultOf?_eq_none.mpr hformed]
  exact if_pos (reservedNames_contains.mpr hname)

theorem rejection?_of_taken (hformed : p.plugin.WellFormed) (hfree : p.plugin.name ≠ "top")
    (htaken : ∃ q ∈ r.plugins, q.name = p.plugin.name) :
    r.rejection? p native = some (.conflict p.plugin.name p.plugin.name "name") := by
  have hreserved : ¬ reservedNames.contains p.plugin.name = true :=
    fun h => hfree (reservedNames_contains.mp h)
  rw [rejection?, faultOf?_eq_none.mpr hformed]
  simp only
  rw [if_neg hreserved, if_pos (get?_isSome.mpr htaken), nameLabel]

/-- A well-formed plugin with a new name is left with its operations and its
owner to be looked at. -/
theorem rejection?_of_newName (hformed : p.plugin.WellFormed) (hname : r.NewName p.plugin.name) :
    r.rejection? p native =
      (p.plugin.operations.keys.findSome? (r.operationConflict? native p.plugin.name)).or
        (if p.owner.isSome then some (.alreadyOwned p.plugin.name) else none) := by
  have hreserved : ¬ reservedNames.contains p.plugin.name = true :=
    fun h => hname.not_reserved (reservedNames_contains.mp h)
  have htaken : ¬ (r.get? p.plugin.name).isSome = true := fun h => by
    obtain ⟨q, hq, heq⟩ := get?_isSome.mp h
    exact hname.not_taken q hq heq
  rw [rejection?, faultOf?_eq_none.mpr hformed]
  simp only
  rw [if_neg hreserved, if_neg htaken]
  cases p.plugin.operations.keys.findSome? (r.operationConflict? native p.plugin.name) <;> rfl

theorem findSome?_conflict_eq_none :
    p.plugin.operations.keys.findSome? (r.operationConflict? native plugin) = none ↔
      ∀ op ∈ p.plugin.operations.keys, r.Free native op := by
  rw [List.findSome?_eq_none_iff]
  exact forall₂_congr fun op _ => operationConflict?_eq_none

/-- The first of the operations that someone has already. -/
theorem Consistent.findSome?_conflict_eq_some (h : r.Consistent) :
    p.plugin.operations.keys.findSome? (r.operationConflict? native plugin) = some e ↔
      ∃ before op after, p.plugin.operations.keys = before ++ op :: after
        ∧ r.Clashes native plugin op e ∧ ∀ o ∈ before, r.Free native o := by
  rw [List.findSome?_eq_some_iff]
  simp only [h.operationConflict?_eq_some, operationConflict?_eq_none]

/-! ### All of them -/

theorem Consistent.rejects_of_rejection? (h : r.Consistent)
    (hsome : r.rejection? p native = some e) : r.Rejects native p e := by
  cases hfault : faultOf? p.plugin with
  | some fault =>
      rw [rejection?_of_fault hfault] at hsome
      cases hsome
      exact .faulty (faultOf?_eq_some.mp hfault)
  | none =>
      have hformed : p.plugin.WellFormed := faultOf?_eq_none.mp hfault
      by_cases hreserved : p.plugin.name = "top"
      · rw [rejection?_of_reserved hformed hreserved] at hsome
        cases hsome
        exact .reserved hformed hreserved
      by_cases htaken : ∃ q ∈ r.plugins, q.name = p.plugin.name
      · rw [rejection?_of_taken hformed hreserved htaken] at hsome
        cases hsome
        obtain ⟨q, hq, hname⟩ := htaken
        exact .taken hformed hreserved hq hname
      have hname : r.NewName p.plugin.name := ⟨hreserved, fun q hq heq => htaken ⟨q, hq, heq⟩⟩
      rw [rejection?_of_newName hformed hname, Option.or_eq_some_iff] at hsome
      rcases hsome with hfound | ⟨hfree, howned⟩
      · obtain ⟨before, op, after, hkeys, hclash, hbefore⟩ :=
          h.findSome?_conflict_eq_some.mp hfound
        exact .clash hformed hname hkeys hbefore hclash
      · split at howned
        · next howner =>
            cases howned
            exact .owned hformed hname (findSome?_conflict_eq_none.mp hfree)
              (Option.isSome_iff_ne_none.mp howner)
        · cases howned

/-- Which error a plugin is rejected with. -/
theorem Consistent.rejection?_eq_some (h : r.Consistent) :
    r.rejection? p native = some e ↔ r.Rejects native p e := by
  refine ⟨h.rejects_of_rejection?, fun hrejects => ?_⟩
  cases hrejects with
  | faulty hfault => exact rejection?_of_fault (faultOf?_eq_some.mpr hfault)
  | reserved hformed hname => exact rejection?_of_reserved hformed hname
  | taken hformed hfree hq hname => exact rejection?_of_taken hformed hfree ⟨_, hq, hname⟩
  | clash hformed hname hkeys hbefore hclash =>
      have hfound := h.findSome?_conflict_eq_some.mpr ⟨_, _, _, hkeys, hclash, hbefore⟩
      rw [rejection?_of_newName hformed hname, hfound, Option.some_or]
  | owned hformed hname hfree howner =>
      rw [rejection?_of_newName hformed hname, findSome?_conflict_eq_none.mpr hfree,
        Option.none_or, if_pos (Option.isSome_iff_ne_none.mpr howner)]

/-- A plugin is not rejected exactly if it is as it has to be. -/
theorem Consistent.rejection?_eq_none (h : r.Consistent) :
    r.rejection? p native = none ↔ r.Accepts native p := by
  constructor
  · intro hnone
    have hnot : ∀ e, ¬ r.Rejects native p e := fun e hrejects => by
      rw [h.rejection?_eq_some.mpr hrejects] at hnone
      cases hnone
    have hformed : p.plugin.WellFormed := by
      cases hfault : faultOf? p.plugin with
      | none => exact faultOf?_eq_none.mp hfault
      | some fault => exact absurd (.faulty (faultOf?_eq_some.mp hfault)) (hnot _)
    have hname : r.NewName p.plugin.name :=
      have hreserved : p.plugin.name ≠ "top" := fun heq => hnot _ (.reserved hformed heq)
      ⟨hreserved, fun q hq heq => hnot _ (.taken hformed hreserved hq heq)⟩
    rw [rejection?_of_newName hformed hname, Option.or_eq_none_iff] at hnone
    obtain ⟨hfree, hunowned⟩ := hnone
    refine ⟨hformed, hname, findSome?_conflict_eq_none.mp hfree, ?_⟩
    split at hunowned
    · cases hunowned
    · next howner => exact Option.not_isSome_iff_eq_none.mp howner
  · rintro ⟨hformed, hname, hfree, howner⟩
    rw [rejection?_of_newName hformed hname, findSome?_conflict_eq_none.mpr hfree, howner]
    rfl

end Checks

end Registry

end NginxConfig
