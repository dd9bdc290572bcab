import NginxConfig.Decimal.Reader
import NginxConfig.Text.Hex

/-!
# Numerals in texts

Both formats write integers with the digits of the library and read them digit
by digit. A reader takes a run of digits to its end, so what counts about the
text behind a number is its first character.
-/

namespace NginxConfig

namespace Text

/-! ## Runs of characters -/

/-- Characters that a class tells apart. -/
theorem ne_of_class {p : Char → Bool} {c d : Char} (hc : p c = true) (hd : p d = false) :
    c ≠ d := by
  rintro rfl
  rw [hd] at hc
  cases hc

/-- A run of characters ends at once. -/
def Stops (p : Char → Bool) (rest : List Char) : Prop :=
  ∀ c ∈ rest.head?, p c = false

variable {p : Char → Bool} {cs rest : List Char}

theorem Stops.cons {c : Char} (h : p c = false) (rest : List Char) : Stops p (c :: rest) := by
  intro d hd
  obtain rfl := Option.some.inj hd
  exact h

theorem takeWhile_of_stops (h : Stops p rest) : rest.takeWhile p = [] := by
  cases rest with
  | nil => rfl
  | cons c rest => rw [List.takeWhile_cons, h c rfl]; rfl

theorem dropWhile_of_stops (h : Stops p rest) : rest.dropWhile p = rest := by
  cases rest with
  | nil => rfl
  | cons c rest => rw [List.dropWhile_cons, h c rfl]; rfl

theorem takeWhile_append_of_stops (hcs : ∀ c ∈ cs, p c = true) (h : Stops p rest) :
    (cs ++ rest).takeWhile p = cs := by
  rw [List.takeWhile_append_of_pos hcs, takeWhile_of_stops h, List.append_nil]

theorem dropWhile_append_of_stops (hcs : ∀ c ∈ cs, p c = true) (h : Stops p rest) :
    (cs ++ rest).dropWhile p = rest := by
  rw [List.dropWhile_append_of_pos hcs, dropWhile_of_stops h]

/-! ## Hexadecimal digits -/

theorem hexValue?_smallDigit : ∀ n < 16, hexValue? (smallDigit n) = some n := by
  decide

theorem hexValue?_capitalDigit : ∀ n < 16, hexValue? (capitalDigit n) = some n := by
  decide

/-- The number of an escaped control, which has two zeros in front. -/
theorem hexNumber?_twoDigits {digit : Nat → Char}
    (hdigit : ∀ n < 16, hexValue? (digit n) = some n) {n : Nat} (hn : n < 256) :
    hexNumber? ('0' :: '0' :: twoDigits digit n) = some n := by
  have hhigh : hexValue? (digit (n / 16 % 16)) = some (n / 16 % 16) := hdigit _ (by omega)
  have hlow : hexValue? (digit (n % 16)) = some (n % 16) := hdigit _ (by omega)
  have hzero : hexValue? '0' = some 0 := rfl
  simp only [hexNumber?, twoDigits, List.foldlM_cons, List.foldlM_nil, hzero, hhigh, hlow,
    Option.map_some, Option.bind_eq_bind, Option.bind_some, Option.pure_def]
  congr 1
  omega

end Text

namespace Decimal

/-! ## Digits of a number -/

theorem ofDigits_toDigits (n : Nat) : ofDigits (Nat.toDigits 10 n) = n :=
  Nat.ofDigitChars_toDigits (by decide) (by decide)

theorem isDigit_of_mem_toDigits {n : Nat} {c : Char} (h : c ∈ Nat.toDigits 10 n) :
    c.isDigit = true :=
  Nat.isDigit_of_mem_toDigits (by decide) (by decide) h

/-- A number starts with a zero only if it is zero. -/
theorem toDigits_eq_cons (n : Nat) :
    ∃ c cs, Nat.toDigits 10 n = c :: cs ∧ c.isDigit = true ∧ (c = '0' → cs = []) := by
  induction n using Nat.strongRecOn with
  | ind n ih =>
      by_cases hn : n < 10
      · refine ⟨_, [], Nat.toDigits_of_lt_base hn, ?_, fun _ => rfl⟩
        rw [Nat.isDigit_digitChar]
        exact decide_eq_true hn
      · have hge : 10 ≤ n := Nat.not_lt.mp hn
        obtain ⟨c, cs, heq, hdigit, hzero⟩ := ih (n / 10) (by omega)
        refine ⟨c, cs ++ [Nat.digitChar (n % 10)], ?_, hdigit, fun hc => ?_⟩
        · rw [Nat.toDigits_of_base_le (by decide) hge, heq, List.cons_append]
        · -- The digits before the last are those of a number that is not zero.
          obtain rfl := hzero hc
          have hval := ofDigits_toDigits (n / 10)
          rw [heq, hc] at hval
          have : n / 10 = 0 := hval.symm
          omega

/-- An integer is written with the digits of its size, after a minus if it is
below zero. -/
theorem toList_toString (n : Int) :
    (toString n).toList = (if n < 0 then ['-'] else []) ++ Nat.toDigits 10 n.natAbs := by
  cases n with
  | ofNat m =>
      have hnot : ¬ Int.ofNat m < 0 := Int.not_lt.mpr (Int.natCast_nonneg m)
      rw [if_neg hnot]
      exact Nat.toList_repr
  | negSucc m =>
      have hneg : Int.negSucc m < 0 := Int.negSucc_lt_zero m
      have htext : toString (Int.negSucc m) = "-" ++ Nat.repr (m + 1) := rfl
      rw [if_pos hneg, htext, String.toList_append, Nat.toList_repr]
      rfl

/-- There is nothing but digits and a minus in an integer. -/
theorem notMem_toString {c : Char} (hdigit : c.isDigit = false) (hminus : c ≠ '-') (n : Int) :
    c ∉ (toString n).toList := by
  rw [toList_toString, List.mem_append, not_or]
  constructor
  · split
    · rwa [List.mem_singleton]
    · exact List.not_mem_nil
  · intro h
    rw [isDigit_of_mem_toDigits h] at hdigit
    cases hdigit

end Decimal

end NginxConfig
