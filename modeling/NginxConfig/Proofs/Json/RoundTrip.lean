import NginxConfig.Json.Reader
import NginxConfig.Json.Writer
import NginxConfig.Proofs.Document.Plain
import NginxConfig.Proofs.Text.Numerals

/-!
# JSON texts say what was written

The reader gives back every plain document that the writer wrote, as long as
its containers do not lie too deep in one another (`read?_write`). A text in
quotes comes back character by character. A number ends where a comma, a line
break or the text ends; the space that the writer puts between items is what
the reader skips. The fuel is counted by the characters that are left to read.
-/

namespace NginxConfig.Json

open Text

/-! ## Texts -/

theorem charsOf?_unit {n : Nat} (hn : n < 0xD800) (ps : List Piece) :
    charsOf? (.unit n :: ps) = (charsOf? ps).map (Char.ofNat n :: ·) := by
  have hhigh : isHighSurrogate n = false := by
    rw [isHighSurrogate, Bool.and_eq_false_iff]
    exact Or.inl (decide_eq_false (by omega))
  have hlow : isLowSurrogate n = false := by
    rw [isLowSurrogate, Bool.and_eq_false_iff]
    exact Or.inl (decide_eq_false (by omega))
  cases ps with
  | nil => simp [charsOf?, hhigh, hlow]
  | cons p rest => cases p <;> simp [charsOf?, hhigh, hlow]

/-- A character that is written as it is. -/
theorem pieces_plain {c : Char} (hquote : c ≠ '\x22') (hback : c ≠ '\\')
    (hspace : ¬ c.toNat < 0x20) (rest : List Char) :
    pieces (c :: rest) = (pieces rest).map fun (ps, r) => (.char c :: ps, r) := by
  rw [pieces.eq_def]
  split
  · next h => cases h
  · next h => exact absurd (List.cons.inj h).1 hquote
  · next h => exact absurd (List.cons.inj h).1 hback
  · next h => exact absurd (List.cons.inj h).1 hback
  · next h =>
      obtain ⟨rfl, rfl⟩ := List.cons.inj h
      rw [if_neg hspace]

/-- The text of a character is one piece, which stands for the character. -/
theorem pieces_charText (c : Char) :
    ∃ p, (∀ rest, pieces (charText c ++ rest) =
        (pieces rest).map fun (ps, r) => (p :: ps, r))
      ∧ ∀ ps, charsOf? (p :: ps) = (charsOf? ps).map (c :: ·) := by
  rw [charText.eq_def]
  split
  · exact ⟨.char '\x22', fun rest => rfl, fun ps => by rw [charsOf?]⟩
  · exact ⟨.char '\\', fun rest => rfl, fun ps => by rw [charsOf?]⟩
  · exact ⟨.char '\x08', fun rest => rfl, fun ps => by rw [charsOf?]⟩
  · exact ⟨.char '\x0c', fun rest => rfl, fun ps => by rw [charsOf?]⟩
  · exact ⟨.char '\n', fun rest => rfl, fun ps => by rw [charsOf?]⟩
  · exact ⟨.char '\r', fun rest => rfl, fun ps => by rw [charsOf?]⟩
  · exact ⟨.char '\t', fun rest => rfl, fun ps => by rw [charsOf?]⟩
  · next hquote hback _ _ _ _ _ =>
      split
      · next hcontrol =>
          have hhex := hexNumber?_twoDigits hexValue?_smallDigit (show c.toNat < 256 by omega)
          refine ⟨.unit c.toNat, fun rest => ?_, fun ps => ?_⟩
          · rw [twoDigits] at hhex
            simp only [twoDigits, List.cons_append, List.nil_append, pieces, hhex]
          · rw [charsOf?_unit (by omega), Char.ofNat_toNat]
      · next hcontrol =>
          exact ⟨.char c, pieces_plain hquote hback hcontrol, fun ps => by rw [charsOf?]⟩

theorem pieces_quoted (cs rest : List Char) :
    ∃ ps, pieces (cs.flatMap charText ++ '\x22' :: rest) = some (ps, rest)
      ∧ charsOf? ps = some cs := by
  induction cs with
  | nil => exact ⟨[], rfl, rfl⟩
  | cons c cs ih =>
      obtain ⟨ps, hpieces, hchars⟩ := ih
      obtain ⟨p, hread, hmeans⟩ := pieces_charText c
      refine ⟨p :: ps, ?_, ?_⟩
      · rw [List.flatMap_cons, List.append_assoc, hread, hpieces]
        rfl
      · rw [hmeans, hchars]
        rfl

theorem toList_quoted (s : String) :
    (quoted s).toList = '\x22' :: (s.toList.flatMap charText ++ ['\x22']) := by
  simp only [quoted, String.toList_append, String.toList_ofList]
  rfl

/-- A text in quotes, after the first of them. -/
theorem textOf?_quoted (s : String) (rest : List Char) :
    ∃ ps, pieces (s.toList.flatMap charText ++ ['\x22'] ++ rest) = some (ps, rest)
      ∧ textOf? ps = some s := by
  obtain ⟨ps, hpieces, hchars⟩ := pieces_quoted s.toList rest
  refine ⟨ps, by rw [List.append_assoc]; exact hpieces, ?_⟩
  rw [textOf?, hchars, Option.map_some, String.ofList_toList]

/-! ## Numbers -/

theorem takeDigits_eq {ds : List Char} {s : Nat}
    (h : ds.foldl (fun n c => 10 * n + Decimal.digitValue c) s < significandLimit) :
    takeDigits s ds = (ds.foldl (fun n c => 10 * n + Decimal.digitValue c) s, ds.length, 0) := by
  induction ds generalizing s with
  | nil => rfl
  | cons d ds ih =>
      have hgrows : ∀ (ds : List Char) (s : Nat),
          s ≤ ds.foldl (fun n c => 10 * n + Decimal.digitValue c) s := by
        intro ds
        induction ds with
        | nil => exact fun s => Nat.le_refl s
        | cons d ds ih =>
            intro s
            have hfirst : s ≤ 10 * s + Decimal.digitValue d := by omega
            exact Nat.le_trans hfirst (ih _)
      have hnext : 10 * s + Decimal.digitValue d < significandLimit :=
        Nat.lt_of_le_of_lt (hgrows ds _) h
      rw [takeDigits]
      simp only [if_pos hnext, ih h]
      rfl

/-- What may stand behind a value: a comma, a line break or nothing. -/
def Follows (rest : List Char) : Prop :=
  ∀ c ∈ rest.head?, c = ',' ∨ c = '\n'

/-- What may stand behind a number: nothing that would be part of it. -/
def EndsNumber (rest : List Char) : Prop :=
  ∀ c ∈ rest.head?, c.isDigit = false ∧ c ≠ '.' ∧ c ≠ 'e' ∧ c ≠ 'E'

theorem Follows.endsNumber {rest : List Char} (h : Follows rest) : EndsNumber rest := by
  intro c hc
  rcases h c hc with rfl | rfl <;> decide

theorem fractionPart_of_endsNumber {rest : List Char} (h : EndsNumber rest) :
    fractionPart rest = some (none, rest) := by
  cases rest with
  | nil => rfl
  | cons c rest =>
      rw [fractionPart]
      exact fun cs hcs => (h c rfl).2.1 (List.cons.inj hcs).1

theorem exponentPart_of_endsNumber {rest : List Char} (h : EndsNumber rest) :
    exponentPart rest = some (none, rest) := by
  cases rest with
  | nil => rfl
  | cons c rest =>
      obtain ⟨-, -, hsmall, hcapital⟩ := h c rfl
      rw [exponentPart, if_neg (not_or.mpr ⟨hsmall, hcapital⟩)]

theorem number_toDigits (negative : Bool) {n : Nat} (hn : n < significandLimit)
    {rest : List Char} (h : EndsNumber rest) :
    number negative (Nat.toDigits 10 n ++ rest) =
      some (match integer? negative n with
        | some i => .int i
        | none => floatOf ⟨negative, n, 0⟩, rest) := by
  have hdigits : ∀ c ∈ Nat.toDigits 10 n, c.isDigit = true := fun _ =>
    Decimal.isDigit_of_mem_toDigits
  have hstops : Stops Char.isDigit rest := fun c hc => (h c hc).1
  have htake : takeDigits 0 (Nat.toDigits 10 n) = (n, (Nat.toDigits 10 n).length, 0) := by
    have hvalue := Decimal.ofDigits_toDigits n
    rw [Decimal.ofDigits] at hvalue
    rw [takeDigits_eq (by rw [hvalue]; exact hn), hvalue]
  rw [number, takeWhile_append_of_stops hdigits hstops, dropWhile_append_of_stops hdigits hstops]
  obtain ⟨c, cs, heq, -, hzero⟩ := Decimal.toDigits_eq_cons n
  split
  · next hnil => exact absurd hnil Nat.toDigits_ne_nil
  · next d ds hlead =>
      obtain ⟨rfl, rfl⟩ := List.cons.inj (heq.symm.trans hlead)
      exact absurd (hzero rfl) (List.cons_ne_nil d ds)
  · rw [fractionPart_of_endsNumber h]
    simp only [Option.bind_eq_bind, Option.bind_some]
    rw [exponentPart_of_endsNumber h, Option.bind_some, numberOf, htake]
    rfl

/-- The digits of an integer of 64 bits with or without a sign, after a minus or none. -/
theorem number_natAbs {n : Int} (hlo : -Int.pow 2 63 ≤ n) (hhi : n < Int.pow 2 64)
    {rest : List Char} (h : EndsNumber rest) :
    number (decide (n < 0)) (Nat.toDigits 10 n.natAbs ++ rest) = some (.int n, rest) := by
  have hpow : Int.pow 2 63 = Nat.pow 2 63 := rfl
  have hpow' : Int.pow 2 64 = significandLimit := rfl
  have hsmall : Nat.pow 2 63 < significandLimit := by decide
  have hlimit : n.natAbs < significandLimit := by omega
  rw [number_toDigits _ hlimit h, integer?]
  by_cases hneg : n < 0
  · have hsize : 0 < n.natAbs ∧ n.natAbs ≤ Nat.pow 2 63 := by omega
    have hvalue : -(n.natAbs : Int) = n := by omega
    rw [decide_eq_true hneg, if_pos rfl, if_pos hsize, hvalue]
  · have hvalue : (n.natAbs : Int) = n := by omega
    rw [decide_eq_false hneg, if_neg Bool.false_ne_true, hvalue]

/-! ## Space -/

theorem skipSpace_append {sp : List Char} (h : ∀ c ∈ sp, isSpace c = true) (cs : List Char) :
    skipSpace (sp ++ cs) = skipSpace cs :=
  List.dropWhile_append_of_pos h

theorem skipSpace_cons {c : Char} (h : isSpace c = false) (cs : List Char) :
    skipSpace (c :: cs) = c :: cs :=
  dropWhile_of_stops (.cons h cs)

theorem value_skip {sp : List Char} (h : ∀ c ∈ sp, isSpace c = true) (fuel depth : Nat)
    (cs : List Char) : value fuel depth (sp ++ cs) = value fuel depth cs := by
  cases fuel with
  | zero => rw [value, value]
  | succ fuel => rw [value, value, skipSpace_append h]

theorem items_skip {sp : List Char} (h : ∀ c ∈ sp, isSpace c = true) (fuel depth : Nat)
    (cs : List Char) : items fuel depth (sp ++ cs) = items fuel depth cs := by
  cases fuel with
  | zero => rw [items, items]
  | succ fuel => rw [items, items, value_skip h]

theorem fields_skip {sp : List Char} (h : ∀ c ∈ sp, isSpace c = true) (fuel depth : Nat)
    (cs : List Char) : fields fuel depth (sp ++ cs) = fields fuel depth cs := by
  cases fuel with
  | zero => rw [fields, fields]
  | succ fuel => rw [fields, fields, skipSpace_append h]

theorem takeWhile_isSpace (cs : List Char) : ∀ c ∈ cs.takeWhile isSpace, isSpace c = true :=
  List.all_eq_true.mp List.all_takeWhile

theorem toList_newLine (level : Nat) :
    (newLine level).toList = '\n' :: List.replicate (step * level) ' ' := by
  simp only [newLine, String.toList_append, String.toList_ofList]
  rfl

theorem isSpace_of_mem_singleton : ∀ c ∈ [' '], isSpace c = true := by
  intro c hc
  rw [List.mem_singleton.mp hc]
  rfl

theorem isSpace_of_mem_newLine {level : Nat} : ∀ c ∈ (newLine level).toList, isSpace c = true := by
  intro c hc
  rw [toList_newLine] at hc
  rcases List.mem_cons.mp hc with rfl | hc
  · rfl
  · rw [List.eq_of_mem_replicate hc]
    rfl

/-! ## Values that are no containers -/

theorem value_digit {c : Char} (h : c.isDigit = true) (fuel depth : Nat) (cs : List Char) :
    value (fuel + 1) depth (c :: cs) = number false (c :: cs) := by
  have hne : ∀ d, d.isDigit = false → c ≠ d := fun d hd => ne_of_class h hd
  have hspace : isSpace c = false := by
    simp only [isSpace, beq_false_of_ne (hne ' ' rfl), beq_false_of_ne (hne '\n' rfl),
      beq_false_of_ne (hne '\t' rfl), beq_false_of_ne (hne '\r' rfl), Bool.or_self]
  rw [value.eq_def, skipSpace_cons hspace]
  simp only
  split
  · next h => cases h
  · next h => exact absurd (List.cons.inj h).1 (hne _ rfl)
  · next h => exact absurd (List.cons.inj h).1 (hne _ rfl)
  · next h => exact absurd (List.cons.inj h).1 (hne _ rfl)
  · next h => exact absurd (List.cons.inj h).1 (hne _ rfl)
  · next h => exact absurd (List.cons.inj h).1 (hne _ rfl)
  · next h => exact absurd (List.cons.inj h).1 (hne _ rfl)
  · next h => exact absurd (List.cons.inj h).1 (hne _ rfl)
  · rfl

theorem value_int {n : Int} (hlo : -Int.pow 2 63 ≤ n) (hhi : n < Int.pow 2 64)
    (fuel depth : Nat) {rest : List Char} (h : EndsNumber rest) :
    value (fuel + 1) depth ((toString n).toList ++ rest) = some (.int n, rest) := by
  have hnumber := number_natAbs hlo hhi h
  rw [Decimal.toList_toString]
  by_cases hneg : n < 0
  · rw [decide_eq_true hneg] at hnumber
    rw [if_pos hneg, List.append_assoc, List.singleton_append, value, skipSpace_cons rfl]
    exact hnumber
  · rw [decide_eq_false hneg] at hnumber
    obtain ⟨c, cs, heq, hdigit, -⟩ := Decimal.toDigits_eq_cons n.natAbs
    rw [if_neg hneg, List.nil_append]
    rw [heq, List.cons_append] at hnumber ⊢
    rw [value_digit hdigit, hnumber]

theorem value_text (s : String) (fuel depth : Nat) (rest : List Char) :
    value (fuel + 1) depth ((quoted s).toList ++ rest) = some (.text s, rest) := by
  obtain ⟨ps, hpieces, htext⟩ := textOf?_quoted s rest
  rw [toList_quoted, List.cons_append, value, skipSpace_cons rfl]
  simp only
  rw [hpieces, Option.map_some, htext]
  rfl

/-! ## Containers -/

/-- What is written behind an item: the other items and the closing bracket. -/
def behind (level : Nat) (closing : String) : List String → List Char
  | [] => (newLine level).toList ++ closing.toList
  | s :: rest => ',' :: ((newLine (level + 1)).toList ++ (s.toList ++ behind level closing rest))

theorem toList_spread (opening closing : String) (level : Nat) (s : String) (rest : List String) :
    (spread opening closing level (s :: rest)).toList =
      opening.toList ++ ((newLine (level + 1)).toList ++ (s.toList ++ behind level closing rest)) := by
  have hitems : ∀ (rest : List String) (s : String),
      (("," ++ newLine (level + 1)).intercalate (s :: rest)).toList ++
        ((newLine level).toList ++ closing.toList) = s.toList ++ behind level closing rest := by
    intro rest
    induction rest with
    | nil =>
        intro s
        rw [String.intercalate_singleton, behind]
    | cons t rest ih =>
        intro s
        rw [String.intercalate_cons_cons, String.toList_append, String.toList_append, behind,
          List.append_assoc, List.append_assoc, ih t, String.toList_append]
        rfl
  rw [spread, List.isEmpty_cons, if_neg Bool.false_ne_true]
  simp only [String.toList_append, List.append_assoc]
  rw [hitems]

theorem behind_follows (level : Nat) (closing : String) (items : List String) (rest : List Char) :
    Follows (behind level closing items ++ rest) := by
  cases items with
  | nil =>
      rw [behind, toList_newLine]
      intro c hc
      exact Or.inr (Option.some.inj hc).symm
  | cons s items =>
      intro c hc
      exact Or.inl (Option.some.inj hc).symm

/-- The items of a list behind the first. -/
def itemsBehind (fuel depth : Nat) (cs : List Char) : Option (List Document × List Char) :=
  match skipSpace cs with
  | ',' :: rest => items fuel depth rest
  | ']' :: rest => some ([], rest)
  | _ => none

theorem items_succ (fuel depth : Nat) (cs : List Char) :
    items (fuel + 1) depth cs = (value fuel (depth + 1) cs).bind fun (d, rest) =>
      (itemsBehind fuel depth rest).map fun (ds, rest) => (d :: ds, rest) := by
  rw [items]
  cases value fuel (depth + 1) cs with
  | none => rfl
  | some r =>
      simp only [Option.bind_some, itemsBehind]
      generalize skipSpace r.2 = after
      rcases after with - | ⟨c, cs⟩
      · rfl
      by_cases hcomma : c = ','
      · rw [hcomma]
        rfl
      by_cases hclosed : c = ']'
      · rw [hclosed]
        rfl
      · simp [hcomma, hclosed]

/-- The entries of a table behind the first. -/
def fieldsBehind (fuel depth : Nat) (cs : List Char) :
    Option (Option (List (String × Document)) × List Char) :=
  match skipSpace cs with
  | ',' :: rest => fields fuel depth rest
  | '\x7d' :: rest => some (some [], rest)
  | _ => none

theorem fields_quoted (key : String) (fuel depth : Nat) (cs : List Char) :
    fields (fuel + 1) depth ((quoted key).toList ++ ':' :: cs) =
      (value fuel (depth + 1) cs).bind fun (d, rest) =>
        (fieldsBehind fuel depth rest).map fun (es, rest) => (es.map ((key, d) :: ·), rest) := by
  obtain ⟨ps, hpieces, htext⟩ := textOf?_quoted key (':' :: cs)
  rw [toList_quoted, List.cons_append, fields, skipSpace_cons rfl]
  simp only
  rw [hpieces]
  simp only
  rw [skipSpace_cons rfl]
  simp only
  cases value fuel (depth + 1) cs with
  | none => rfl
  | some r =>
      simp only [Option.bind_some, fieldsBehind, htext, Option.map_some]
      generalize skipSpace r.2 = after
      rcases after with - | ⟨c, cs⟩
      · rfl
      by_cases hcomma : c = ','
      · rw [hcomma]
        rfl
      by_cases hclosed : c = '\x7d'
      · rw [hclosed]
        rfl
      · simp [hcomma, hclosed]

theorem contained_of_lt {depth : Nat} (h : depth < maxDepth) (d : Document) :
    contained depth d = d :=
  if_pos h

/-- No item starts with the closing bracket. -/
theorem items_bracket (fuel depth : Nat) (cs : List Char) :
    items fuel depth (']' :: cs) = none := by
  have hvalue : ∀ fuel, value fuel (depth + 1) (']' :: cs) = none := by
    intro fuel
    cases fuel with
    | zero => rw [value]
    | succ fuel =>
        rw [value.eq_def, skipSpace_cons rfl]
        rfl
  cases fuel with
  | zero => rw [items]
  | succ fuel => rw [items_succ, hvalue, Option.bind_none]

/-- A bracket with items behind it. -/
theorem value_list {fuel depth : Nat} {cs rest : List Char} {ds : List Document}
    (h : items fuel depth cs = some (ds, rest)) (hdepth : depth < maxDepth) :
    value (fuel + 1) depth ('[' :: cs) = some (.list ds, rest) := by
  have hskip : items fuel depth (skipSpace cs) = some (ds, rest) := by
    rw [← items_skip (takeWhile_isSpace cs), skipSpace, List.takeWhile_append_dropWhile]
    exact h
  rw [value, skipSpace_cons rfl]
  simp only
  split
  · next hclosed =>
      rw [hclosed, items_bracket] at hskip
      cases hskip
  · rw [hskip, Option.map_some, contained_of_lt hdepth]

theorem value_table {fuel depth : Nat} {cs rest : List Char} {es : List (String × Document)}
    (h : fields fuel depth cs = some (some es, rest)) (hdepth : depth < maxDepth) :
    value (fuel + 1) depth ('\x7b' :: cs) = some (.table es, rest) := by
  have hskip : fields fuel depth (skipSpace cs) = some (some es, rest) := by
    rw [← fields_skip (takeWhile_isSpace cs), skipSpace, List.takeWhile_append_dropWhile]
    exact h
  rw [value, skipSpace_cons rfl]
  simp only
  split
  · next hclosed =>
      rw [hclosed] at hskip
      cases fuel with
      | zero => rw [fields] at hskip; cases hskip
      | succ fuel => rw [fields, skipSpace_cons rfl] at hskip; cases hskip
  · rw [hskip, Option.map_some, contained_of_lt hdepth]
    rfl

/-! ## Documents -/

theorem itemsBehind_nil (fuel depth level : Nat) (rest : List Char) :
    itemsBehind fuel depth (behind level "]" [] ++ rest) = some ([], rest) := by
  have hclosing : "]".toList ++ rest = ']' :: rest := rfl
  rw [itemsBehind, behind, List.append_assoc, skipSpace_append isSpace_of_mem_newLine, hclosing,
    skipSpace_cons rfl]
  rfl

theorem fieldsBehind_nil (fuel depth level : Nat) (rest : List Char) :
    fieldsBehind fuel depth (behind level "\x7d" [] ++ rest) = some (some [], rest) := by
  have hclosing : "\x7d".toList ++ rest = '\x7d' :: rest := rfl
  rw [fieldsBehind, behind, List.append_assoc, skipSpace_append isSpace_of_mem_newLine, hclosing,
    skipSpace_cons rfl]
  rfl

theorem itemsBehind_cons (fuel depth level : Nat) (s : String) (others : List String)
    (rest : List Char) :
    itemsBehind fuel depth (behind level "]" (s :: others) ++ rest) =
      items fuel depth (s.toList ++ (behind level "]" others ++ rest)) := by
  rw [itemsBehind, behind, List.cons_append, skipSpace_cons rfl]
  simp only [List.append_assoc]
  exact items_skip isSpace_of_mem_newLine fuel depth _

theorem fieldsBehind_cons (fuel depth level : Nat) (s : String) (others : List String)
    (rest : List Char) :
    fieldsBehind fuel depth (behind level "\x7d" (s :: others) ++ rest) =
      fields fuel depth (s.toList ++ (behind level "\x7d" others ++ rest)) := by
  rw [fieldsBehind, behind, List.cons_append, skipSpace_cons rfl]
  simp only [List.append_assoc]
  exact fields_skip isSpace_of_mem_newLine fuel depth _

/-- A container without items. -/
theorem value_empty {fuel depth : Nat} (hdepth : depth < maxDepth) (level : Nat)
    (rest : List Char) :
    value (fuel + 1) depth ((pretty level (.list [])).toList ++ rest) = some (.list [], rest)
      ∧ value (fuel + 1) depth ((pretty level (.table [])).toList ++ rest) =
          some (.table [], rest) := by
  have hlist : (pretty level (.list [])).toList = ['[', ']'] := by
    rw [pretty, prettyItems, spread, List.isEmpty_nil, if_pos rfl, String.toList_append]
    rfl
  have htable : (pretty level (.table [])).toList = ['\x7b', '\x7d'] := by
    rw [pretty, prettyEntries, spread, List.isEmpty_nil, if_pos rfl, String.toList_append]
    rfl
  constructor
  · rw [hlist, List.cons_append, List.cons_append, value, skipSpace_cons rfl]
    simp only
    rw [skipSpace_cons rfl, contained_of_lt hdepth]
    rfl
  · rw [htable, List.cons_append, List.cons_append, value, skipSpace_cons rfl]
    simp only
    rw [skipSpace_cons rfl, contained_of_lt hdepth]
    rfl

theorem value_word (fuel depth : Nat) (rest : List Char) :
    value (fuel + 1) depth ("null".toList ++ rest) = some (.null, rest)
      ∧ value (fuel + 1) depth ("true".toList ++ rest) = some (.bool true, rest)
      ∧ value (fuel + 1) depth ("false".toList ++ rest) = some (.bool false, rest) := by
  have hnull : "null".toList ++ rest = 'n' :: 'u' :: 'l' :: 'l' :: rest := rfl
  have htrue : "true".toList ++ rest = 't' :: 'r' :: 'u' :: 'e' :: rest := rfl
  have hfalse : "false".toList ++ rest = 'f' :: 'a' :: 'l' :: 's' :: 'e' :: rest := rfl
  refine ⟨?_, ?_, ?_⟩
  · rw [hnull, value, skipSpace_cons rfl]
    rfl
  · rw [htrue, value, skipSpace_cons rfl]
    rfl
  · rw [hfalse, value, skipSpace_cons rfl]
    rfl

theorem toList_pretty_list (level : Nat) (d : Document) (ds : List Document) :
    (pretty level (.list (d :: ds))).toList =
      '[' :: ((newLine (level + 1)).toList ++ ((pretty (level + 1) d).toList ++
        behind level "]" (prettyItems (level + 1) ds))) := by
  rw [pretty, prettyItems, toList_spread]
  rfl

theorem toList_entry (key : String) (level : Nat) (d : Document) (rest : List Char) :
    (quoted key ++ ": " ++ pretty level d).toList ++ rest =
      (quoted key).toList ++ ':' :: ([' '] ++ ((pretty level d).toList ++ rest)) := by
  simp only [String.toList_append, List.append_assoc]
  rfl

theorem toList_pretty_table (level : Nat) (key : String) (d : Document)
    (entries : List (String × Document)) :
    (pretty level (.table ((key, d) :: entries))).toList =
      '\x7b' :: ((newLine (level + 1)).toList ++
        ((quoted key ++ ": " ++ pretty (level + 1) d).toList ++
          behind level "\x7d" (prettyEntries (level + 1) entries))) := by
  rw [pretty, prettyEntries, toList_spread]
  rfl

mutual

/-- A value takes two steps for each of its characters at most. -/
theorem value_pretty : ∀ (d : Document) (fuel depth level : Nat) (rest : List Char),
    d.IsPlain → depth + d.height ≤ maxDepth → 2 * (pretty level d).length ≤ fuel →
      Follows rest → value (fuel + 1) depth ((pretty level d).toList ++ rest) = some (d, rest)
  | .null => by
      intro fuel depth level rest _ _ _ _
      simp only [pretty, compact]
      exact (value_word fuel depth rest).1
  | .bool true => by
      intro fuel depth level rest _ _ _ _
      simp only [pretty, compact]
      exact (value_word fuel depth rest).2.1
  | .bool false => by
      intro fuel depth level rest _ _ _ _
      simp only [pretty, compact]
      exact (value_word fuel depth rest).2.2
  | .int n => by
      intro fuel depth level rest hplain _ _ hrest
      simp only [pretty, compact]
      have hhi : n < Int.pow 2 64 := Int.lt_trans hplain.2 (by decide)
      exact value_int hplain.1 hhi fuel depth hrest.endsNumber
  | .text s => by
      intro fuel depth level rest _ _ _ _
      simp only [pretty, compact]
      exact value_text s fuel depth rest
  | .float _ | .unreadable => fun _ _ _ _ hplain _ _ _ => False.elim hplain
  | .list [] => fun _ _ level rest _ hdepth _ _ => (value_empty hdepth level rest).1
  | .list (d :: ds) => by
      intro fuel depth level rest hplain hdepth hfuel _
      have hheight : (Document.list (d :: ds)).height =
          1 + max d.height (Document.heightAll ds) := rfl
      rw [hheight] at hdepth
      have hform := toList_pretty_list level d ds
      rw [← String.length_toList, hform] at hfuel
      simp only [List.length_cons, List.length_append, String.length_toList] at hfuel
      obtain ⟨fuel, rfl⟩ : ∃ f, fuel = f + 2 := ⟨fuel - 2, by omega⟩
      have hfirst := value_pretty d fuel (depth + 1) (level + 1)
        (behind level "]" (prettyItems (level + 1) ds) ++ rest) hplain.1 (by omega) (by omega)
        (behind_follows _ _ _ _)
      have hothers := itemsBehind_pretty ds fuel depth level rest hplain.2 (by omega) (by omega)
      rw [hform, List.cons_append]
      refine value_list ?_ (by omega)
      rw [List.append_assoc, items_skip isSpace_of_mem_newLine, List.append_assoc, items_succ,
        hfirst, Option.bind_some]
      simp only [hothers, Option.map_some]
  | .table [] => fun _ _ level rest _ hdepth _ _ => (value_empty hdepth level rest).2
  | .table ((key, d) :: entries) => by
      intro fuel depth level rest hplain hdepth hfuel _
      have hheight : (Document.table ((key, d) :: entries)).height =
          1 + max d.height (Document.heightEntries entries) := rfl
      rw [hheight] at hdepth
      have hform := toList_pretty_table level key d entries
      rw [← String.length_toList, hform] at hfuel
      simp only [List.length_cons, List.length_append, String.length_toList,
        String.length_append] at hfuel
      obtain ⟨fuel, rfl⟩ : ∃ f, fuel = f + 2 := ⟨fuel - 2, by omega⟩
      have hfirst := value_pretty d fuel (depth + 1) (level + 1)
        (behind level "\x7d" (prettyEntries (level + 1) entries) ++ rest) hplain.1 (by omega)
        (by omega) (behind_follows _ _ _ _)
      have hothers := fieldsBehind_pretty entries fuel depth level rest hplain.2 (by omega)
        (by omega)
      rw [hform, List.cons_append]
      refine value_table ?_ (by omega)
      rw [List.append_assoc, fields_skip isSpace_of_mem_newLine, List.append_assoc, toList_entry,
        fields_quoted, value_skip isSpace_of_mem_singleton, hfirst, Option.bind_some]
      simp only [hothers, Option.map_some]

theorem itemsBehind_pretty : ∀ (ds : List Document) (fuel depth level : Nat) (rest : List Char),
    Document.AllPlain ds → depth + 1 + Document.heightAll ds ≤ maxDepth →
      2 * (behind level "]" (prettyItems (level + 1) ds)).length ≤ fuel →
        itemsBehind (fuel + 1) depth (behind level "]" (prettyItems (level + 1) ds) ++ rest) =
          some (ds, rest)
  | [] => fun fuel depth level rest _ _ _ => itemsBehind_nil (fuel + 1) depth level rest
  | d :: ds => by
      intro fuel depth level rest hplain hdepth hfuel
      have hheight : Document.heightAll (d :: ds) = max d.height (Document.heightAll ds) := rfl
      rw [hheight] at hdepth
      rw [prettyItems, behind] at hfuel
      simp only [List.length_cons, List.length_append, String.length_toList] at hfuel
      obtain ⟨fuel, rfl⟩ : ∃ f, fuel = f + 1 := ⟨fuel - 1, by omega⟩
      have hfirst := value_pretty d fuel (depth + 1) (level + 1)
        (behind level "]" (prettyItems (level + 1) ds) ++ rest) hplain.1 (by omega) (by omega)
        (behind_follows _ _ _ _)
      have hothers := itemsBehind_pretty ds fuel depth level rest hplain.2 (by omega) (by omega)
      rw [prettyItems, itemsBehind_cons, items_succ, hfirst, Option.bind_some]
      simp only [hothers, Option.map_some]

theorem fieldsBehind_pretty : ∀ (entries : List (String × Document)) (fuel depth level : Nat)
    (rest : List Char), Document.EntriesPlain entries →
      depth + 1 + Document.heightEntries entries ≤ maxDepth →
        2 * (behind level "\x7d" (prettyEntries (level + 1) entries)).length ≤ fuel →
          fieldsBehind (fuel + 1) depth
            (behind level "\x7d" (prettyEntries (level + 1) entries) ++ rest) =
              some (some entries, rest)
  | [] => fun fuel depth level rest _ _ _ => fieldsBehind_nil (fuel + 1) depth level rest
  | (key, d) :: entries => by
      intro fuel depth level rest hplain hdepth hfuel
      have hheight : Document.heightEntries ((key, d) :: entries) =
          max d.height (Document.heightEntries entries) := rfl
      rw [hheight] at hdepth
      rw [prettyEntries, behind] at hfuel
      simp only [List.length_cons, List.length_append, String.length_toList,
        String.length_append] at hfuel
      obtain ⟨fuel, rfl⟩ : ∃ f, fuel = f + 1 := ⟨fuel - 1, by omega⟩
      have hfirst := value_pretty d fuel (depth + 1) (level + 1)
        (behind level "\x7d" (prettyEntries (level + 1) entries) ++ rest) hplain.1 (by omega)
        (by omega) (behind_follows _ _ _ _)
      have hothers := fieldsBehind_pretty entries fuel depth level rest hplain.2 (by omega)
        (by omega)
      rw [prettyEntries, fieldsBehind_cons, toList_entry, fields_quoted, value_skip isSpace_of_mem_singleton,
        hfirst, Option.bind_some]
      simp only [hothers, Option.map_some]

end

/-- **The text of a plain document says that document**, unless its containers
lie too deep in one another. -/
theorem read?_write {d : Document} (hplain : d.IsPlain) (hdepth : d.height ≤ maxDepth) :
    read? (write d) = some d := by
  have hvalue : value (2 * (pretty 0 d).length + 2) 0 ((pretty 0 d).toList ++ []) =
      some (d, []) :=
    value_pretty d _ 0 0 [] hplain (by omega) (by omega) (fun _ h => nomatch h)
  rw [List.append_nil] at hvalue
  rw [read?, String.length_toList, write, hvalue]
  rfl

end NginxConfig.Json
