import Mathlib
import NginxConfig.Decimal.Layout

/-!
# Doubles out of their parts

A double that is put together of a significand and an exponent comes apart into the same
two (`decode_encode`). So what is written for a whole number that has more than 53 bits is
told without any floating point: the bits behind the 53rd are rounded off, and the rest is
written in full, with a fractional digit (`textExactWhole_nearest`).
-/

namespace NginxConfig.Decimal

/-! ## Bits -/

/-- Only what is not a number loses bits on the way through a double. -/
theorem toBits_ofBits {b : UInt64} (h : b.toNat / Nat.pow 2 52 % Nat.pow 2 11 ≠ 2047) :
    (Float.ofBits b).toBits = b := by
  have hvalid : Float.Model.Format.binary64.Valid b.toBitVec := by
    refine ⟨fun hexponent => absurd ?_ h⟩
    have hbits := congrArg BitVec.toNat hexponent
    rw [Float.Model.UnpackedFloat.unpackExponent_def, BitVec.extractLsb'_toNat,
      Nat.shiftRight_eq_div_pow] at hbits
    exact hbits
  exact UInt64.toBitVec_inj.mp (Float.Model.UnpackedFloat.pack_unpack_of_valid hvalid)

/-- The bits of a sign, an exponent and a fraction. -/
def packed (negative : Bool) (biased fraction : Nat) : Nat :=
  (if negative then Nat.pow 2 63 else 0) + (biased * hiddenBit + fraction)

section Packed

variable {negative : Bool} {biased fraction : Nat}

theorem hiddenBit_eq : hiddenBit = 4503599627370496 := rfl

theorem packed_eq : packed negative biased fraction =
    negative.toNat * 9223372036854775808 + (biased * 4503599627370496 + fraction) := by
  cases negative with
  | false => exact congrArg (· + _) (Nat.zero_mul _).symm
  | true => exact congrArg (· + _) (Nat.one_mul _).symm

theorem packed_lt (hbiased : biased < 2047) (hfraction : fraction < hiddenBit) :
    packed negative biased fraction < 18446744073709551616 := by
  have hsign := negative.toNat_lt
  rw [hiddenBit_eq] at hfraction
  rw [packed_eq]
  omega

theorem packed_fraction (hfraction : fraction < hiddenBit) :
    packed negative biased fraction % hiddenBit = fraction := by
  rw [hiddenBit_eq] at hfraction ⊢
  rw [packed_eq]
  omega

theorem packed_biased (hbiased : biased < 2047) (hfraction : fraction < hiddenBit) :
    packed negative biased fraction / hiddenBit % 2048 = biased := by
  rw [hiddenBit_eq] at hfraction ⊢
  rw [packed_eq]
  omega

theorem packed_negative (hbiased : biased < 2047) (hfraction : fraction < hiddenBit) :
    decide (9223372036854775808 ≤ packed negative biased fraction) = negative := by
  rw [hiddenBit_eq] at hfraction
  rw [packed_eq]
  cases negative with
  | false =>
      rw [Bool.toNat_false]
      exact decide_eq_false (by omega)
  | true =>
      rw [Bool.toNat_true]
      exact decide_eq_true (by omega)

/-- The parts of a double that is finite. -/
theorem decode_packed (hbiased : biased < 2047) (hfraction : fraction < hiddenBit) :
    decode (Float.ofBits (UInt64.ofNat (packed negative biased fraction))) =
      if biased = 0 then .finite negative fraction leastExponent
      else .finite negative (hiddenBit + fraction) ((biased : Int) - 1075) := by
  have hnat : (UInt64.ofNat (packed negative biased fraction)).toNat =
      packed negative biased fraction :=
    UInt64.toNat_ofNat_of_lt' (packed_lt hbiased hfraction)
  have hexponent : packed negative biased fraction / hiddenBit % Nat.pow 2 11 = biased :=
    packed_biased hbiased hfraction
  have hbits : (Float.ofBits (UInt64.ofNat (packed negative biased fraction))).toBits =
      UInt64.ofNat (packed negative biased fraction) := by
    refine toBits_ofBits ?_
    rw [hnat]
    exact fun h => absurd (hexponent.symm.trans h) (Nat.ne_of_lt hbiased)
  have hsign : decide (Nat.pow 2 63 ≤ packed negative biased fraction) = negative :=
    packed_negative hbiased hfraction
  rw [decode, hbits]
  simp only [hnat, hsign, hexponent, packed_fraction hfraction]
  rw [if_neg (Nat.ne_of_lt hbiased)]

end Packed

/-- What `encode` takes: all bits of the significand are used unless the exponent is the least. -/
structure Encodable (significand : Nat) (exponent : Int) : Prop where
  significand_lt : significand < 2 * hiddenBit
  exponent_le : exponent ≤ 971
  least_le : leastExponent ≤ exponent
  normal : significand < hiddenBit → exponent = leastExponent

/-- **A double comes apart into what it was put together of.** -/
theorem decode_encode (negative : Bool) {m : Nat} {e : Int} (h : Encodable m e) :
    decode (encode negative m e) = .finite negative m e := by
  obtain ⟨hm, hle, hleast, hnormal⟩ := h
  rw [leastExponent] at hleast
  by_cases hhidden : m < hiddenBit
  · have hbits : encode negative m e = Float.ofBits (UInt64.ofNat (packed negative 0 m)) := by
      rw [encode, if_pos hhidden, packed, Nat.zero_mul, Nat.zero_add]
    rw [hbits, decode_packed (by decide) hhidden, if_pos rfl, hnormal hhidden]
  · have hbits : encode negative m e =
        Float.ofBits (UInt64.ofNat (packed negative (e + 1075).toNat (m - hiddenBit))) := by
      rw [encode, if_neg hhidden, packed]
    have hbiased : (e + 1075).toNat ≠ 0 := by omega
    have hsignificand : hiddenBit + (m - hiddenBit) = m := by omega
    have hexponent : ((e + 1075).toNat : Int) - 1075 = e := by omega
    rw [hbits, decode_packed (by omega) (by omega), if_neg hbiased, hsignificand, hexponent]

/-! ## Whole numbers -/

theorem roundQuotient_le (num den : Nat) : roundQuotient num den ≤ num / den + 1 := by
  rw [roundQuotient]
  split_ifs <;> omega

theorem le_roundQuotient (num den : Nat) : num / den ≤ roundQuotient num den := by
  rw [roundQuotient]
  split_ifs <;> omega

variable {k n : Nat}

theorem twoPower_natCast (k : Nat) : twoPower k = (2 ^ k, 1) := by
  rw [twoPower, Int.toNat_natCast, Int.toNat_neg_natCast]
  rfl

/-- A number of `53 + k` bits is rounded to a multiple of `2 ^ k`. -/
theorem exponentFor_whole (hk : 0 < k) (hlo : 2 ^ (52 + k) ≤ n) (hhi : n < 2 ^ (53 + k)) :
    Width.double.exponentFor n 1 = k := by
  have hpos : n ≠ 0 := Nat.ne_of_gt (Nat.lt_of_lt_of_le (Nat.two_pow_pos _) hlo)
  have hlog : Nat.log2 n = 52 + k := by
    rw [Nat.log2_eq_iff hpos]
    exact ⟨hlo, by rw [show 52 + k + 1 = 53 + k by omega]; exact hhi⟩
  obtain ⟨j, rfl⟩ : ∃ j, k = j + 1 := ⟨k - 1, by omega⟩
  have hguess : (Nat.log2 n : Int) - Nat.log2 1 - Width.double.precision = j := by
    rw [hlog, show Nat.log2 1 = 0 from rfl, show Width.double.precision = 53 from rfl]
    omega
  have hfits : ¬ n * 1 < Nat.pow 2 Width.double.precision * (1 * 2 ^ j) := by
    rw [Nat.mul_one, Nat.one_mul]
    show ¬ n < 2 ^ 53 * 2 ^ j
    rw [← pow_add]
    exact Nat.not_lt.mpr (by rw [show 53 + j = 52 + (j + 1) by omega]; exact hlo)
  rw [Width.exponentFor, hguess]
  simp only [twoPower_natCast]
  rw [decide_eq_false hfits, if_neg Bool.false_ne_true]
  exact max_eq_right (by rw [show Width.double.least = -1074 from rfl]; omega)

/-- All bits of the significand are used, or it is one more than fits. -/
theorem roundQuotient_bounds (hlo : 2 ^ (52 + k) ≤ n) (hhi : n < 2 ^ (53 + k)) :
    hiddenBit ≤ roundQuotient n (2 ^ k) ∧ roundQuotient n (2 ^ k) ≤ 2 * hiddenBit := by
  have hlow : hiddenBit ≤ n / 2 ^ k := by
    rw [Nat.le_div_iff_mul_le (Nat.two_pow_pos k)]
    exact (pow_add 2 52 k).symm.trans_le hlo
  have hhigh : n / 2 ^ k < 2 * hiddenBit := by
    rw [Nat.div_lt_iff_lt_mul (Nat.two_pow_pos k)]
    exact hhi.trans_eq (pow_add 2 53 k)
  have hle := le_roundQuotient n (2 ^ k)
  have hge := roundQuotient_le n (2 ^ k)
  omega

/-- The number that comes out in place of a whole one. -/
theorem round_whole (hk : 0 < k) (hk' : k < 971) (hlo : 2 ^ (52 + k) ≤ n)
    (hhi : n < 2 ^ (53 + k)) :
    ∃ m e : Nat, Width.double.round n 1 = some (m, (e : Int)) ∧ Encodable m e
      ∧ m * 2 ^ e = roundQuotient n (2 ^ k) * 2 ^ k := by
  have hpos : n ≠ 0 := Nat.ne_of_gt (Nat.lt_of_lt_of_le (Nat.two_pow_pos _) hlo)
  obtain ⟨hlow, hhigh⟩ := roundQuotient_bounds hlo hhi
  have hround : Width.double.round n 1 =
      let p : Nat × Int := if roundQuotient n (2 ^ k) = 2 * hiddenBit
        then (roundQuotient n (2 ^ k) / 2, k + 1) else (roundQuotient n (2 ^ k), k)
      if Width.double.greatest < p.2 then none else some p := by
    rw [Width.round, if_neg hpos, exponentFor_whole hk hlo hhi]
    simp only [twoPower_natCast, Nat.mul_one, Nat.one_mul]
    rfl
  have hgreatest {e : Int} (he : e ≤ 971) : ¬ Width.double.greatest < e := Int.not_lt.mpr he
  by_cases hfull : roundQuotient n (2 ^ k) = 2 * hiddenBit
  · -- One more bit than fits: the significand is halved.
    have hencodable : Encodable hiddenBit (k + 1 : Nat) :=
      ⟨by decide, by omega, by rw [leastExponent]; omega, fun h => absurd h (Nat.lt_irrefl _)⟩
    refine ⟨hiddenBit, k + 1, ?_, hencodable, ?_⟩
    · rw [hround, if_pos hfull, hfull, Nat.mul_div_cancel_left _ (by decide)]
      simp only
      rw [if_neg (hgreatest (by omega)), Nat.cast_add, Nat.cast_one]
    · rw [hfull, pow_succ]
      ring
  · have hencodable : Encodable (roundQuotient n (2 ^ k)) k :=
      ⟨by omega, by omega, by rw [leastExponent]; omega,
        fun h => absurd h (Nat.not_lt.mpr hlow)⟩
    refine ⟨roundQuotient n (2 ^ k), k, ?_, hencodable, rfl⟩
    rw [hround, if_neg hfull]
    simp only
    rw [if_neg (hgreatest (by omega))]

theorem wholeDigits_natCast (m e : Nat) : wholeDigits m e = some (m * 2 ^ e) := by
  rw [wholeDigits]
  simp only [twoPower_natCast]
  rw [if_pos (Nat.mod_one _), Nat.div_one]

/-- **The text of a large whole number.** Of a number of `53 + k` bits the last `k` are rounded
off, and the others are written in full. -/
theorem textExactWhole_nearest (layout : Layout) (negative : Bool) (hk : 0 < k) (hk' : k < 971)
    (hlo : 2 ^ (52 + k) ≤ n) (hhi : n < 2 ^ (53 + k)) :
    layout.textExactWhole (nearest negative n 1) =
      signText negative ++ toString (roundQuotient n (2 ^ k) * 2 ^ k) ++ ".0" := by
  obtain ⟨m, e, hround, hencodable, hvalue⟩ := round_whole hk hk' hlo hhi
  rw [nearest, hround, Layout.textExactWhole]
  simp only [decode_encode negative hencodable, wholeDigits_natCast, hvalue]

end NginxConfig.Decimal
