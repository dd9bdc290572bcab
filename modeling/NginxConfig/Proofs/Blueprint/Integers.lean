import NginxConfig.Proofs.Blueprint.Parts
import NginxConfig.Proofs.Decimal.Encoding
import NginxConfig.Proofs.Json.RoundTrip

/-!
# Integers of a document

The JSON reader takes an integer for what it says, as long as it fits in 64 bits with or
without a sign. An option value that does not fit with one is made a double, which has 53
bits for 64, and is written with a fractional digit. A count of that size keeps its digits as
a text, and so the same number has two texts from `2 ^ 63` on
(`Blueprint.integer_texts`).
-/

namespace NginxConfig

/-! ## Texts of integers -/

namespace Value

theorem text_ofInt_of_lt {n : Int} (hlo : -Int.pow 2 63 ≤ n) (h : n < Int.pow 2 63) :
    (ofInt n).text = toString n := by
  rw [ofInt, if_pos ⟨hlo, h⟩, text, Int64.toInt_ofInt_of_le hlo h]

/-- Eleven bits are rounded off. -/
theorem text_ofInt_of_ge {n : Int} (h : Int.pow 2 63 ≤ n) (hhi : n < Int.pow 2 64) :
    (ofInt n).text = toString (Decimal.roundQuotient n.toNat 2048 * 2048) ++ ".0" := by
  have hpow : Int.pow 2 63 = 9223372036854775808 := rfl
  have hpow' : Int.pow 2 64 = 18446744073709551616 := rfl
  have hnonneg : ¬ n < 0 := by omega
  have hnat : n.natAbs = n.toNat := by omega
  have hlow : 2 ^ (52 + 11) ≤ n.toNat := by
    rw [show 2 ^ (52 + 11) = 9223372036854775808 from rfl]
    omega
  have hhigh : n.toNat < 2 ^ (53 + 11) := by
    rw [show 2 ^ (53 + 11) = 18446744073709551616 from rfl]
    omega
  rw [ofInt, if_neg (fun hfits => absurd hfits.2 (Int.not_lt.mpr h)), text,
    decide_eq_false hnonneg, hnat,
    Decimal.textExactWhole_nearest Decimal.plain false (by decide) (by decide) hlow hhigh]
  rfl

/-- A document writes an integer with its own digits as long as it has a sign to spare. -/
theorem text_ofInt_eq_iff {n : Int} (hlo : -Int.pow 2 63 ≤ n) (hhi : n < Int.pow 2 64) :
    (ofInt n).text = toString n ↔ n < Int.pow 2 63 := by
  refine ⟨fun htext => Classical.byContradiction fun h => ?_, text_ofInt_of_lt hlo⟩
  rw [text_ofInt_of_ge (Int.not_lt.mp h) hhi] at htext
  have hpoint : '.' ∉ (toString n).toList := Decimal.notMem_toString rfl (by decide) n
  refine hpoint ?_
  rw [← htext, String.toList_append]
  exact List.mem_append_right _ (by decide)

/-- A count is written with its own digits, whatever its size. -/
theorem text_ofCount (n : Nat) : (ofCount n).text = toString n := by
  rw [ofCount]
  split
  · next h =>
      rw [text, Int64.toInt_ofNat_of_lt h]
      rfl
  · rfl

end Value

/-! ## Options of a document -/

theorem Table.get?_insertAll_of_notMem {α : Type} {key : String} {pairs : List (String × α)} :
    ∀ {t : Table α}, key ∉ pairs.map Prod.fst → (t.insertAll pairs).get? key = t.get? key := by
  induction pairs with
  | nil => exact fun _ => rfl
  | cons p rest ih =>
      intro t h
      rw [List.map_cons, List.mem_cons, not_or] at h
      have hstep : t.insertAll (p :: rest) = (t.insert p.1 p.2).insertAll rest := rfl
      rw [hstep, ih h.2, get?_insert, if_neg h.1]

/-- The last value of a key counts. -/
theorem Table.get?_ofList {α : Type} {key : String} {a : α} {l r : List (String × α)}
    (h : key ∉ r.map Prod.fst) : (ofList (l ++ (key, a) :: r)).get? key = some a := by
  have hsplit : ofList (l ++ (key, a) :: r) = ((ofList l).insert key a).insertAll r := by
    rw [ofList, insertAll, List.foldl_append]
    rfl
  rw [hsplit, get?_insertAll_of_notMem h, get?_insert, if_pos rfl]

/-- What an option of a document comes out as. -/
theorem Options.get?_of_decode {l r : List (String × Document)} {key : String} {d : Document}
    {o : Options} (h : decode (.table (l ++ (key, d) :: r)) = .ok o)
    (hlast : key ∉ r.map Prod.fst) : o.get? key = Value.ofDocument? d := by
  obtain ⟨pairs, hpairs, rfl⟩ := map_eq_ok.mp h
  obtain ⟨v, l', r', hv, rfl, hkeys⟩ := decodeEntries_fill hpairs
  rw [Table.get?_ofList (by rw [hkeys]; exact hlast), hv]

namespace Blueprint

/-- **What becomes of an integer of 64 bits.** The JSON reader takes it for what it says. As an
option it keeps its digits below `2 ^ 63`; from there on it is rounded to a multiple of `2048`
and has a fractional digit. As a count it keeps its digits throughout, so the two agree below
`2 ^ 63` and nowhere else. -/
theorem integer_texts {n : Int} (hlo : -Int.pow 2 63 ≤ n) (hhi : n < Int.pow 2 64) :
    (∀ fuel depth rest, Json.EndsNumber rest →
        Json.value (fuel + 1) depth ((toString n).toList ++ rest) = some (.int n, rest))
      ∧ (∀ s bp place l key r o,
          Json.read? s = some (Document.Place.fill place (.table (l ++ (key, .int n) :: r))) →
          key ∉ r.map Prod.fst → parse .json s = .ok bp →
          (Part.blueprint bp).follow place = .options o →
            ∃ v, o.get? key = some v ∧ (v.text = toString n ↔ n < Int.pow 2 63)
              ∧ (Int.pow 2 63 ≤ n →
                  v.text = toString (Decimal.roundQuotient n.toNat 2048 * 2048) ++ ".0")
              ∧ (0 ≤ n → ((Value.ofCount n.toNat).text = v.text ↔ n < Int.pow 2 63)))
      ∧ (0 ≤ n → (Value.ofCount n.toNat).text = toString n) := by
  have hcount : 0 ≤ n → (Value.ofCount n.toNat).text = toString n := fun hn => by
    obtain ⟨m, rfl⟩ := Int.eq_ofNat_of_zero_le hn
    exact Value.text_ofCount m
  refine ⟨fun fuel depth rest => Json.value_int hlo hhi fuel depth, ?_, hcount⟩
  intro s bp place l key r o hread hlast hparse ho
  have hwhole : (Part.blueprint bp).Of Format.json.convention
      (place.fill (.table (l ++ (key, .int n) :: r))) :=
    (parse_eq_ok (by simp only [Format.read, hread])).mp hparse
  have hoptions := Part.of_follow hwhole
  rw [ho] at hoptions
  have hiff := Value.text_ofInt_eq_iff hlo hhi
  refine ⟨Value.ofInt n, Options.get?_of_decode hoptions hlast, hiff,
    fun h => Value.text_ofInt_of_ge h hhi, fun hn => ?_⟩
  rw [hcount hn, eq_comm, hiff]

/-- A blueprint whose only option is the greatest count. -/
def greatestText : String :=
  "\x7b\"http\":\x7b\"limit\":18446744073709551615\x7d\x7d"

/-- What is read of it. -/
def greatest : Blueprint :=
  ⟨{}, ∅, .ofList [("limit", Value.ofInt 18446744073709551615)], []⟩

theorem read?_greatestText : Json.read? greatestText =
    some (.table [("http", .table [("limit", .int 18446744073709551615)])]) := by
  have htext : greatestText.toList =
      ['\x7b', '\x22', 'h', 't', 't', 'p', '\x22', ':', '\x7b', '\x22', 'l', 'i', 'm', 'i', 't',
        '\x22', ':', '1', '8', '4', '4', '6', '7', '4', '4', '0', '7', '3', '7', '0', '9', '5', '5',
        '1', '6', '1', '5', '\x7d', '\x7d'] := by
    decide
  rw [Json.read?, htext]
  rfl

theorem parse_greatestText : parse .json greatestText = .ok greatest := by
  have hread : Format.json.read greatestText =
      .ok (.table [("http", .table [("limit", .int 18446744073709551615)])]) := by
    simp only [Format.read, read?_greatestText]
  exact (parse_eq_ok hread).mpr rfl

/-- The greatest count is written as the power of two behind it. -/
theorem integer_texts_greatest :
    parse .json greatestText = .ok greatest
      ∧ ∃ v, greatest.http.get? "limit" = some v ∧ v.text = "18446744073709551616.0"
        ∧ (Value.ofCount 18446744073709551615).text = "18446744073709551615" := by
  obtain ⟨-, hoption, hcount⟩ :=
    integer_texts (n := 18446744073709551615) (by decide) (by decide)
  obtain ⟨v, hv, -, htext, -⟩ := hoption greatestText greatest [.entry [] "http" []] [] "limit"
    [] greatest.http read?_greatestText (by decide) parse_greatestText rfl
  refine ⟨parse_greatestText, v, hv, (htext (by decide)).trans ?_, hcount (by decide)⟩
  decide

/-- Not every integer of 64 bits keeps its digits as an option. -/
theorem not_all_integers_keep_digits :
    ¬ ∀ n : Int, -Int.pow 2 63 ≤ n → n < Int.pow 2 64 →
        ∀ (s : String) (bp : Blueprint) (place : Document.Place) (l r : List (String × Document))
          (key : String) (o : Options),
          Json.read? s = some (place.fill (.table (l ++ (key, .int n) :: r))) →
          key ∉ r.map Prod.fst → parse .json s = .ok bp →
          (Part.blueprint bp).follow place = .options o →
            ∃ v, o.get? key = some v ∧ v.text = toString n := by
  intro h
  obtain ⟨v, hv, htext⟩ := h 18446744073709551615 (by decide) (by decide) greatestText greatest
    [.entry [] "http" []] [] [] "limit" greatest.http read?_greatestText (by decide)
    parse_greatestText rfl
  have hvalue : greatest.http.get? "limit" = some (Value.ofInt 18446744073709551615) := rfl
  cases hvalue.symm.trans hv
  exact absurd ((Value.text_ofInt_eq_iff (by decide) (by decide)).mp htext) (by decide)

end Blueprint

end NginxConfig
