import NginxConfig.Document

/-!
# Plain documents

The documents that a text can hold exactly: there is no floating point number
and nothing without a value in them, and their integers have 64 bits.
-/

namespace NginxConfig.Document

/-- An integer of 64 bits with a sign. -/
def InRange (n : Int) : Prop :=
  -Int.pow 2 63 ≤ n ∧ n < Int.pow 2 63

theorem InRange.natAbs_le {n : Int} (h : InRange n) : n.natAbs ≤ Nat.pow 2 63 := by
  obtain ⟨hlo, hhi⟩ : -9223372036854775808 ≤ n ∧ n < 9223372036854775808 := h
  have hpow : Nat.pow 2 63 = 9223372036854775808 := rfl
  omega

theorem InRange.natAbs_lt {n : Int} (h : InRange n) (hn : ¬ n < 0) :
    n.natAbs < Nat.pow 2 63 := by
  obtain ⟨hlo, hhi⟩ : -9223372036854775808 ≤ n ∧ n < 9223372036854775808 := h
  have hpow : Nat.pow 2 63 = 9223372036854775808 := rfl
  omega

theorem inRange_word (n : UInt32) : InRange n.toNat := by
  have hn : n.toNat < 4294967296 := n.toNat_lt
  show -9223372036854775808 ≤ (n.toNat : Int) ∧ (n.toNat : Int) < 9223372036854775808
  omega

mutual

def IsPlain : Document → Prop
  | .null | .bool _ | .text _ => True
  | .int n => InRange n
  | .list items => AllPlain items
  | .table entries => EntriesPlain entries
  | .float _ | .unreadable => False

def AllPlain : List Document → Prop
  | [] => True
  | d :: rest => d.IsPlain ∧ AllPlain rest

def EntriesPlain : List (String × Document) → Prop
  | [] => True
  | (_, d) :: rest => d.IsPlain ∧ EntriesPlain rest

end

mutual

/-- Whether there is a null anywhere in the document. -/
def HasNull : Document → Prop
  | .null => True
  | .list items => AnyNull items
  | .table entries => EntriesNull entries
  | _ => False

def AnyNull : List Document → Prop
  | [] => False
  | d :: rest => d.HasNull ∨ AnyNull rest

def EntriesNull : List (String × Document) → Prop
  | [] => False
  | (_, d) :: rest => d.HasNull ∨ EntriesNull rest

end

mutual

/-- How many containers lie in one another. -/
def height : Document → Nat
  | .list items => 1 + heightAll items
  | .table entries => 1 + heightEntries entries
  | _ => 0

def heightAll : List Document → Nat
  | [] => 0
  | d :: rest => max d.height (heightAll rest)

def heightEntries : List (String × Document) → Nat
  | [] => 0
  | (_, d) :: rest => max d.height (heightEntries rest)

end

theorem allPlain_iff {items : List Document} : AllPlain items ↔ ∀ d ∈ items, d.IsPlain := by
  induction items with
  | nil => simp [AllPlain]
  | cons d rest ih => rw [AllPlain, ih, List.forall_mem_cons]

theorem entriesPlain_iff {entries : List (String × Document)} :
    EntriesPlain entries ↔ ∀ p ∈ entries, p.2.IsPlain := by
  induction entries with
  | nil => simp [EntriesPlain]
  | cons p rest ih => rw [EntriesPlain, ih, List.forall_mem_cons]

theorem entriesNull_append {entries more : List (String × Document)} :
    EntriesNull (entries ++ more) ↔ EntriesNull entries ∨ EntriesNull more := by
  induction entries with
  | nil => simp [EntriesNull]
  | cons p rest ih => rw [List.cons_append, EntriesNull, EntriesNull, ih, or_assoc]

end NginxConfig.Document
