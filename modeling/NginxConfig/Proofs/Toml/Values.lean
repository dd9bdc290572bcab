import Mathlib.Data.List.Forall2
import NginxConfig.Proofs.Document.Plain
import NginxConfig.Proofs.Toml.Texts
import NginxConfig.Toml.Reader

/-!
# TOML values come back

A value stands after its key, or in a list. What follows it is a line break, a
comma or the bracket of its list, and none of these could go on with a number,
a time or a text. Values on a line are what has no table in it: a table gets
headers (`value_valueForm`).
-/

namespace NginxConfig.Toml

open Text

variable {rest : List Char}

/-- What may stand behind a value: a line break, a comma or a bracket. -/
def Follows (rest : List Char) : Prop :=
  ∀ c ∈ rest.head?, c = '\n' ∨ c = ',' ∨ c = ']'

theorem Follows.noQuote (h : Follows rest) : NoQuote rest := by
  intro c hc
  rcases h c hc with rfl | rfl | rfl <;> decide

theorem Follows.stops {p : Char → Bool} (h : Follows rest) (hline : p '\n' = false)
    (hcomma : p ',' = false) (hbracket : p ']' = false) : Stops p rest := by
  intro c hc
  rcases h c hc with rfl | rfl | rfl
  · exact hline
  · exact hcomma
  · exact hbracket

/-! ## Times -/

section Digits

variable {ds : List Char}

theorem fixed?_append (hds : ∀ c ∈ ds, c.isDigit = true) (hrest : Stops Char.isDigit rest)
    (count : Nat) :
    fixed? count (ds ++ rest) =
      if count ≤ ds.length then
        some (Decimal.ofDigits (ds.take count), ds.drop count ++ rest)
      else none := by
  rw [fixed?]
  by_cases hcount : count ≤ ds.length
  · rw [if_pos hcount, List.take_append_of_le_length hcount, List.drop_append_of_le_length hcount,
      if_pos]
    refine ⟨by rw [List.length_take, Nat.min_eq_left hcount], List.all_eq_true.mpr fun c hc => ?_⟩
    exact hds c (List.mem_of_mem_take hc)
  · rw [if_neg hcount, if_neg]
    rintro ⟨hlength, hall⟩
    -- The first character behind the digits would have to be one.
    cases rest with
    | nil =>
        rw [List.append_nil, List.length_take] at hlength
        omega
    | cons c more =>
        obtain ⟨k, rfl⟩ := Nat.exists_eq_add_of_lt (Nat.lt_of_not_le hcount)
        have hmem : c ∈ (ds ++ c :: more).take (ds.length + (k + 1)) := by
          rw [List.take_length_add_append]
          exact List.mem_append_right ds List.mem_cons_self
        have hdigit := List.all_eq_true.mp hall c hmem
        rw [hrest c rfl] at hdigit
        cases hdigit

/-- A separator that is not there. -/
theorem separator_eq_none {separator : Char} {cs : List Char}
    (h : ∀ c ∈ cs.head?, c ≠ separator) :
    (cs.head?.bind fun c => if c = separator then some (cs.drop 1) else none) = none := by
  cases cs with
  | nil => rfl
  | cons c cs => exact if_neg (h c rfl)

/-- The first digits of a date are followed by a dash, and those of a time by a
colon. -/
theorem moment?_digits (hds : ∀ c ∈ ds, c.isDigit = true)
    (hrest : ∀ c ∈ rest.head?, c.isDigit = false ∧ c ≠ '-' ∧ c ≠ ':') :
    moment? (ds ++ rest) = none := by
  have hstops : Stops Char.isDigit rest := fun c hc => (hrest c hc).1
  have hhead (count : Nat) : ∀ c ∈ (ds.drop count ++ rest).head?, c ≠ '-' ∧ c ≠ ':' := by
    intro c hc
    cases hdrop : ds.drop count with
    | nil =>
        rw [hdrop] at hc
        exact (hrest c hc).2
    | cons d more =>
        rw [hdrop] at hc
        obtain rfl := Option.some.inj hc
        have hdigit := hds d (List.mem_of_mem_drop (hdrop ▸ List.mem_cons_self))
        exact ⟨ne_of_class hdigit rfl, ne_of_class hdigit rfl⟩
  have hdate : date? (ds ++ rest) = none := by
    rw [date?, fixed?_append hds hstops]
    split
    · simp only [Option.bind_eq_bind, Option.bind_some,
        separator_eq_none fun c hc => (hhead 4 c hc).1]
      rfl
    · rfl
  have htime : time? (ds ++ rest) = none := by
    rw [time?, fixed?_append hds hstops]
    split
    · simp only [Option.bind_eq_bind, Option.bind_some,
        separator_eq_none fun c hc => (hhead 2 c hc).2]
      rfl
    · rfl
  rw [moment?, hdate]
  exact htime

theorem moment?_minus (cs : List Char) : moment? ('-' :: cs) = none := by
  have hfixed (count : Nat) : fixed? (count + 1) ('-' :: cs) = none := by
    refine if_neg fun h => ?_
    have hdigit : '-'.isDigit = true := List.all_eq_true.mp h.2 '-' List.mem_cons_self
    exact absurd hdigit (by decide)
  have hdate : date? ('-' :: cs) = none := by
    rw [date?, hfixed 3]
    rfl
  rw [moment?, hdate]
  simp only [time?, hfixed 1]
  rfl

end Digits

/-! ## Numbers -/

theorem areSeparated_digits {cs : List Char} (hne : cs ≠ []) (h : ∀ c ∈ cs, c.isDigit = true) :
    areSeparated cs = true := by
  induction cs with
  | nil => exact absurd rfl hne
  | cons c cs ih =>
      have hc : c ≠ '_' := ne_of_class (h c List.mem_cons_self) rfl
      cases cs with
      | nil => exact bne_iff_ne.mpr hc
      | cons d cs =>
          rw [areSeparated, ih (List.cons_ne_nil d cs) fun e he => h e (List.mem_cons_of_mem c he),
            Bool.and_true, beq_eq_false_iff_ne.mpr hc]
          rfl

/-- What may stand behind digits that are all of a number. -/
theorem Follows.stopsDigits (h : Follows rest) :
    Stops (fun c => c.isDigit || c == '_') rest :=
  h.stops rfl rfl rfl

/-- The digits of a number are a whole number. -/
theorem whole?_toDigits (n : Nat) (h : Follows rest) :
    whole? (Nat.toDigits 10 n ++ rest) = some (Nat.toDigits 10 n, rest) := by
  obtain ⟨c, cs, heq, hdigit, hzero⟩ := Decimal.toDigits_eq_cons n
  have hall : ∀ d ∈ c :: cs, d.isDigit = true := fun d hd =>
    Decimal.isDigit_of_mem_toDigits (heq ▸ hd)
  rw [heq]
  by_cases hc : c = '0'
  · obtain rfl := hc
    rw [hzero rfl]
    rfl
  · have hrun : ((c :: cs) ++ rest).takeWhile (fun c => c.isDigit || c == '_') = c :: cs :=
      takeWhile_append_of_stops (fun d hd => Bool.or_eq_true_iff.mpr (Or.inl (hall d hd)))
        h.stopsDigits
    have hwhole : whole? ((c :: cs) ++ rest) = digits? Char.isDigit ((c :: cs) ++ rest) := by
      rw [whole?.eq_def]
      split
      · next heq => exact absurd (List.cons.inj heq).1 hc
      · rfl
    have hunderscore : c ≠ '_' := ne_of_class hdigit rfl
    rw [hwhole, digits?, hrun, areSeparated_digits (List.cons_ne_nil c cs) hall]
    simp only [List.head?_cons, Option.some.injEq, hunderscore, decide_false, Bool.not_true,
      Bool.or_false, Bool.false_eq_true, if_false, List.drop_left]
    rw [List.filter_eq_self.mpr hall]

theorem decimal?_toDigits (negative : Bool) (n : Nat) (h : Follows rest) :
    decimal? negative (Nat.toDigits 10 n ++ rest) = (integerOf? negative n).map (·, rest) := by
  rw [decimal?, whole?_toDigits n h, Option.bind_some]
  simp only [Decimal.ofDigits_toDigits]
  cases rest with
  | nil => rfl
  | cons c more => rcases h c rfl with rfl | rfl | rfl <;> rfl

/-- No letter of a base stands behind a zero. -/
theorem toDigits_append_ne (n : Nat) (h : Follows rest) {letter : Char}
    (hletter : letter ∈ ['x', 'o', 'b']) (more : List Char) :
    Nat.toDigits 10 n ++ rest ≠ '0' :: letter :: more := by
  intro heq
  obtain ⟨c, cs, hcs, -, hzero⟩ := Decimal.toDigits_eq_cons n
  rw [hcs, List.cons_append] at heq
  obtain ⟨hc, htail⟩ := List.cons.inj heq
  rw [hzero hc, List.nil_append] at htail
  rcases h letter (by rw [htail]; rfl) with rfl | rfl | rfl <;> revert hletter <;> decide

theorem number?_toDigits (n : Nat) (h : Follows rest) :
    number? (Nat.toDigits 10 n ++ rest) = (integerOf? false n).map (·, rest) := by
  obtain ⟨c, cs, hcs, hdigit, -⟩ := Decimal.toDigits_eq_cons n
  have hsign : Decimal.takeSign (Nat.toDigits 10 n ++ rest) =
      (false, Nat.toDigits 10 n ++ rest) := by
    rw [hcs, List.cons_append, Decimal.takeSign.eq_def]
    split
    · next heq => exact absurd (List.cons.inj heq).1 (ne_of_class hdigit rfl)
    · next heq => exact absurd (List.cons.inj heq).1 (ne_of_class hdigit rfl)
    · rfl
  rw [number?.eq_def, ← decimal?_toDigits false n h]
  split
  · next heq => exact absurd heq (toDigits_append_ne n h (by decide) _)
  · next heq => exact absurd heq (toDigits_append_ne n h (by decide) _)
  · next heq => exact absurd heq (toDigits_append_ne n h (by decide) _)
  · rw [hsign, hcs, List.cons_append]
    dsimp only
    split
    · next heq => exact absurd (List.cons.inj heq).1 (ne_of_class hdigit rfl)
    · next heq => exact absurd (List.cons.inj heq).1 (ne_of_class hdigit rfl)
    · rfl

theorem number?_minus (n : Nat) (h : Follows rest) :
    number? ('-' :: (Nat.toDigits 10 n ++ rest)) = (integerOf? true n).map (·, rest) := by
  obtain ⟨c, cs, hcs, hdigit, -⟩ := Decimal.toDigits_eq_cons n
  rw [number?.eq_def, ← decimal?_toDigits true n h]
  split
  · next heq => cases heq
  · next heq => cases heq
  · next heq => cases heq
  · rw [hcs, List.cons_append, Decimal.takeSign]
    dsimp only
    split
    · next heq => exact absurd (List.cons.inj heq).1 (ne_of_class hdigit rfl)
    · next heq => exact absurd (List.cons.inj heq).1 (ne_of_class hdigit rfl)
    · rfl

theorem scalar?_number {c : Char} {cs : List Char} (hc : c.isDigit = true ∨ c = '-')
    (hmoment : moment? (c :: cs) = none) : scalar? (c :: cs) = number? (c :: cs) := by
  have hne {d : Char} (hdigit : d.isDigit = false) (hminus : d ≠ '-') : c ≠ d := by
    rintro rfl
    rcases hc with h | h
    · rw [hdigit] at h
      cases h
    · exact hminus h
  rw [scalar?.eq_def]
  split
  · next heq => cases heq
  · next heq => exact absurd (List.cons.inj heq).1 (hne rfl (by decide))
  · next heq => exact absurd (List.cons.inj heq).1 (hne rfl (by decide))
  · next heq =>
      obtain ⟨rfl, rfl⟩ := List.cons.inj heq
      rw [if_neg (not_or.mpr ⟨hne rfl (by decide), hne rfl (by decide)⟩), hmoment]

/-- An integer of 64 bits comes back from its text. -/
theorem scalar?_int {n : Int} (hn : Document.InRange n) (h : Follows rest) :
    scalar? ((toString n).toList ++ rest) = some (.int n, rest) := by
  obtain ⟨c, cs, hcs, hdigit, -⟩ := Decimal.toDigits_eq_cons n.natAbs
  rw [Decimal.toList_toString, List.append_assoc]
  by_cases hneg : n < 0
  · rw [if_pos hneg, List.singleton_append, scalar?_number (Or.inr rfl) (moment?_minus _),
      number?_minus _ h, integerOf?, if_pos rfl, if_pos hn.natAbs_le, Option.map_some,
      Int.ofNat_natAbs_of_nonpos (Int.le_of_lt hneg), Int.neg_neg]
  · have hmoment : moment? (Nat.toDigits 10 n.natAbs ++ rest) = none := by
      refine moment?_digits (fun c hc => Decimal.isDigit_of_mem_toDigits hc) fun c hc => ?_
      rcases h c hc with rfl | rfl | rfl <;> decide
    have hnumber := number?_toDigits n.natAbs h
    rw [hcs, List.cons_append] at hmoment hnumber
    rw [if_neg hneg, List.nil_append, hcs, List.cons_append, scalar?_number (Or.inl hdigit) hmoment,
      hnumber, integerOf?, if_neg Bool.false_ne_true, if_pos (hn.natAbs_lt hneg), Option.map_some,
      Int.natAbs_of_nonneg (Int.not_lt.mp hneg)]

/-! ## Texts -/

theorem textForm_head (s : String) :
    ∃ c cs, (textForm s).toList = c :: cs ∧ (c = '\x22' ∨ c = '\x27') := by
  rw [textForm, String.toList_ofList]
  split
  · exact ⟨_, _, rfl, Or.inl rfl⟩
  split
  · exact ⟨_, _, rfl, Or.inr rfl⟩
  split
  · exact ⟨_, _, rfl, Or.inl rfl⟩
  split
  · exact ⟨_, _, rfl, Or.inr rfl⟩
  split
  · exact ⟨_, _, rfl, Or.inl rfl⟩
  · exact ⟨_, _, rfl, Or.inl rfl⟩

theorem scalar?_text (s : String) (h : Follows rest) :
    scalar? ((textForm s).toList ++ rest) = some (.text s, rest) := by
  have hread := text?_textForm s h.noQuote
  obtain ⟨c, cs, heq, hquote⟩ := textForm_head s
  rw [heq, List.cons_append] at hread ⊢
  rw [scalar?.eq_def]
  split
  · next heq => cases heq
  · next heq => rw [(List.cons.inj heq).1] at hquote; exact absurd hquote (by decide)
  · next heq => rw [(List.cons.inj heq).1] at hquote; exact absurd hquote (by decide)
  · next heq =>
      obtain ⟨rfl, rfl⟩ := List.cons.inj heq
      rw [if_pos hquote, hread, Option.map_some]

/-! ## Lists -/

/-- A form of a value begins with a character that is not skipped and does not
end a list. -/
def Begins (c : Char) : Prop :=
  isSpace c = false ∧ c ∉ ['\n', '\r', '#', ']']

theorem Begins.of_ne {c : Char} (h : c ∉ [' ', '\t', '\n', '\r', '#', ']']) : Begins c := by
  simp only [List.mem_cons, List.not_mem_nil, or_false, not_or] at h
  simp [Begins, isSpace, h]

theorem skipLines_begins {c : Char} (h : Begins c) (cs : List Char) :
    skipLines false (c :: cs) = some (c :: cs) := by
  obtain ⟨hspace, hmem⟩ := h
  simp only [List.mem_cons, List.not_mem_nil, or_false, not_or] at hmem
  rw [skipLines.eq_def]
  split
  · next heq => cases heq
  · next heq => exact absurd (List.cons.inj heq).1 hmem.1
  · next heq => exact absurd (List.cons.inj heq).1 hmem.2.1
  · next heq =>
      obtain ⟨rfl, rfl⟩ := List.cons.inj heq
      rw [if_neg Bool.false_ne_true, if_neg (Bool.eq_false_iff.mp hspace), if_neg hmem.2.2.1]

/-- A text is a form that the reader takes for a document, in as many containers
as there is room for. -/
structure Reads (d : Document) (form : List Char) : Prop where
  head : ∃ c cs, form = c :: cs ∧ Begins c
  value_eq : ∀ (fuel depth : Nat) (rest : List Char), Follows rest →
    depth + d.height < depthLimit → 2 * form.length ≤ fuel →
    value (fuel + 1) depth (form ++ rest) = some (d, rest)

theorem Reads.of_scalar {d : Document} {c : Char} {cs : List Char} (hbegins : Begins c)
    (hopens : c ≠ '[' ∧ c ≠ '\x7b')
    (h : ∀ {rest : List Char}, Follows rest → scalar? (c :: cs ++ rest) = some (d, rest)) :
    Reads d (c :: cs) := by
  refine ⟨⟨c, cs, rfl, hbegins⟩, fun fuel depth rest hrest _ _ => ?_⟩
  rw [List.cons_append, value.eq_def]
  dsimp only
  split
  · next heq => exact absurd (List.cons.inj heq).1 hopens.1
  · next heq => exact absurd (List.cons.inj heq).1 hopens.2
  · exact h hrest

theorem reads_bool (b : Bool) : Reads (.bool b) (toString b).toList := by
  cases b
  · exact Reads.of_scalar (Begins.of_ne (by decide)) (by decide) fun _ => rfl
  · exact Reads.of_scalar (Begins.of_ne (by decide)) (by decide) fun _ => rfl

theorem reads_int {n : Int} (hn : Document.InRange n) :
    Reads (.int n) (toString n).toList := by
  have hread (rest : List Char) (h : Follows rest) := scalar?_int hn h
  rw [Decimal.toList_toString] at hread ⊢
  by_cases hneg : n < 0
  · rw [if_pos hneg, List.singleton_append] at hread ⊢
    exact Reads.of_scalar (Begins.of_ne (by decide)) (by decide) fun h => hread _ h
  · obtain ⟨c, cs, hcs, hdigit, -⟩ := Decimal.toDigits_eq_cons n.natAbs
    have hne {d : Char} (hd : d.isDigit = false) : c ≠ d := ne_of_class hdigit hd
    rw [if_neg hneg, List.nil_append, hcs] at hread ⊢
    refine Reads.of_scalar (Begins.of_ne ?_) ⟨hne rfl, hne rfl⟩ fun h => hread _ h
    simp only [List.mem_cons, List.not_mem_nil, or_false, not_or]
    exact ⟨hne rfl, hne rfl, hne rfl, hne rfl, hne rfl, hne rfl⟩

theorem reads_text (s : String) : Reads (.text s) (textForm s).toList := by
  have hread {rest : List Char} (h : Follows rest) := scalar?_text s h
  obtain ⟨c, cs, heq, hquote⟩ := textForm_head s
  rw [heq] at hread ⊢
  rcases hquote with rfl | rfl
  · exact Reads.of_scalar (Begins.of_ne (by decide)) (by decide) hread
  · exact Reads.of_scalar (Begins.of_ne (by decide)) (by decide) hread

/-- The items from one on that has been read. -/
def itemsFrom (fuel depth : Nat) (d : Document) (rest : List Char) :
    Option (List Document × List Char) :=
  match skipLines false rest with
  | some (',' :: rest) => (items fuel depth rest).map fun (ds, rest) => (d :: ds, rest)
  | some (']' :: rest) => some ([d], rest)
  | _ => none

theorem items_item {fuel depth : Nat} {d : Document} {before cs rest : List Char} {c : Char}
    (hc : Begins c) (hskip : skipLines false before = some (c :: cs))
    (hvalue : value fuel depth (c :: cs) = some (d, rest)) :
    items (fuel + 1) depth before = itemsFrom fuel depth d rest := by
  have hbracket : c ≠ ']' := by
    rintro rfl
    exact hc.2 (by decide)
  rw [items, hskip]
  split
  · next heq => cases heq
  · next heq => exact absurd (List.cons.inj (Option.some.inj heq)).1 hbracket
  · next heq =>
      obtain rfl := Option.some.inj heq
      rw [hvalue]
      rfl

/-- Items on lines of their own. -/
def itemLines (forms : List String) : List Char :=
  forms.flatMap fun form => '\n' :: ' ' :: ' ' :: ' ' :: ' ' :: form.toList ++ [',']

theorem items_itemLines {ds : List Document} {forms : List String}
    (h : List.Forall₂ (fun d form => Reads d form.toList) ds forms) {fuel depth : Nat}
    (hdepth : depth + Document.heightAll ds < depthLimit)
    (hfuel : 2 * (itemLines forms).length + 1 ≤ fuel) (rest : List Char) :
    items (fuel + 1) depth (itemLines forms ++ '\n' :: ']' :: rest) = some (ds, rest) := by
  induction h generalizing fuel with
  | nil => rfl
  | @cons d form ds forms hd _ ih =>
      obtain ⟨c, cs, heq, hc⟩ := hd.head
      have hlong : (itemLines (form :: forms)).length =
          form.toList.length + 6 + (itemLines forms).length := by
        simp only [itemLines, List.flatMap_cons, List.length_append, List.length_cons,
          List.length_nil]
      rw [Document.heightAll] at hdepth
      obtain ⟨fuel, rfl⟩ : ∃ f, fuel = f + 2 := ⟨fuel - 2, by omega⟩
      have hvalue := hd.value_eq (fuel + 1) depth (',' :: (itemLines forms ++ '\n' :: ']' :: rest))
        (fun c hc => Or.inr (Or.inl (Option.some.inj hc).symm)) (by omega) (by omega)
      have hlines : itemLines (form :: forms) ++ '\n' :: ']' :: rest =
          '\n' :: ' ' :: ' ' :: ' ' :: ' ' ::
            (form.toList ++ ',' :: (itemLines forms ++ '\n' :: ']' :: rest)) := by
        simp [itemLines]
      have hmore : items (fuel + 2) depth (itemLines forms ++ '\n' :: ']' :: rest) =
          some (ds, rest) :=
        ih (by omega) (by omega)
      rw [heq] at hvalue hlines
      rw [hlines]
      refine (items_item hc (skipLines_begins hc _) hvalue).trans ?_
      simp only [itemsFrom, skipLines_begins (Begins.of_ne (c := ',') (by decide)), hmore,
        Option.map_some]

theorem toList_bracket_one (form : String) :
    (bracket [form]).toList = '[' :: (form.toList ++ [']']) := by
  simp [bracket]

theorem toList_bracket (form form' : String) (forms : List String) :
    (bracket (form :: form' :: forms)).toList =
      '[' :: (itemLines (form :: form' :: forms) ++ ['\n', ']']) := by
  have hjoin (forms : List String) :
      (String.join (forms.map fun item => "\n    " ++ item ++ ",")).toList = itemLines forms := by
    rw [String.toList_join, List.flatMap_map, itemLines]
    simp
  simp only [bracket, String.toList_append, hjoin]
  rfl

theorem reads_list {ds : List Document} {forms : List String}
    (h : List.Forall₂ (fun d form => Reads d form.toList) ds forms) :
    Reads (.list ds) (bracket forms).toList := by
  have hbegins : Begins '[' := Begins.of_ne (by decide)
  have hlist {fuel depth : Nat} {cs rest : List Char}
      (hdepth : depth + (Document.list ds).height < depthLimit)
      (hitems : items fuel (depth + 1) cs = some (ds, rest)) :
      value (fuel + 1) depth ('[' :: cs) = some (.list ds, rest) := by
    rw [Document.height] at hdepth
    rw [value, if_neg (by omega), hitems]
    rfl
  refine ⟨?_, fun fuel depth rest hrest hdepth hfuel => ?_⟩
  · cases h with
    | nil => exact ⟨'[', _, rfl, hbegins⟩
    | cons _ h =>
        cases h with
        | nil => exact ⟨'[', _, toList_bracket_one _, hbegins⟩
        | cons _ _ => exact ⟨'[', _, toList_bracket _ _ _, hbegins⟩
  cases h with
  | nil =>
      obtain ⟨fuel, rfl⟩ : ∃ f, fuel = f + 1 := ⟨fuel - 1, by simp [bracket] at hfuel; omega⟩
      exact hlist hdepth rfl
  | @cons d form ds forms hd h =>
      cases h with
      | nil =>
          obtain ⟨c, cs, heq, hc⟩ := hd.head
          rw [toList_bracket_one, List.length_cons, List.length_append] at hfuel
          obtain ⟨fuel, rfl⟩ : ∃ f, fuel = f + 2 := ⟨fuel - 2, by omega⟩
          have hheight := hdepth
          rw [Document.height, Document.heightAll] at hheight
          have hvalue := hd.value_eq fuel (depth + 1) (']' :: rest)
            (fun c hc => Or.inr (Or.inr (Option.some.inj hc).symm)) (by omega) (by omega)
          rw [toList_bracket_one, List.cons_append, List.append_assoc, List.singleton_append]
          refine hlist hdepth ?_
          rw [heq] at hvalue ⊢
          exact (items_item hc (skipLines_begins hc _) hvalue).trans rfl
      | @cons e form' ds forms he h =>
          rw [toList_bracket] at hfuel ⊢
          rw [List.length_cons, List.length_append] at hfuel
          obtain ⟨fuel, rfl⟩ : ∃ f, fuel = f + 1 := ⟨fuel - 1, by omega⟩
          rw [List.cons_append, List.append_assoc]
          refine hlist hdepth (items_itemLines (.cons hd (.cons he h)) ?_ ?_ rest)
          · rw [Document.height] at hdepth
            omega
          · omega

/-! ## Documents without tables -/

mutual

/-- A document without tables, which is written after its key. -/
def IsInline : Document → Prop
  | .list items => AllInline items
  | .table _ => False
  | _ => True

def AllInline : List Document → Prop
  | [] => True
  | d :: rest => IsInline d ∧ AllInline rest

end

mutual

/-- **A value comes back from its form.** -/
theorem reads_valueForm : ∀ (d : Document) {form : String}, d.IsPlain → IsInline d →
    valueForm d = some form → Reads d form.toList
  | .null => fun _ _ h => by rw [valueForm] at h; cases h
  | .bool b => fun _ _ h => by rw [valueForm] at h; cases h; exact reads_bool b
  | .int n => fun hplain _ h => by
      rw [valueForm] at h
      cases h
      rw [Document.IsPlain] at hplain
      exact reads_int hplain
  | .float _ => fun hplain => by rw [Document.IsPlain] at hplain; exact hplain.elim
  | .text s => fun _ _ h => by rw [valueForm] at h; cases h; exact reads_text s
  | .list items => fun hplain hinline h => by
      rw [valueForm] at h
      rw [Document.IsPlain] at hplain
      rw [IsInline] at hinline
      obtain ⟨forms, hforms, rfl⟩ := Option.map_eq_some_iff.mp h
      exact reads_list (reads_itemForms items hplain hinline hforms)
  | .table _ => fun _ hinline => by rw [IsInline] at hinline; exact hinline.elim
  | .unreadable => fun hplain => by rw [Document.IsPlain] at hplain; exact hplain.elim

theorem reads_itemForms : ∀ (ds : List Document) {forms : List String}, Document.AllPlain ds →
    AllInline ds → itemForms ds = some forms →
    List.Forall₂ (fun d form => Reads d form.toList) ds forms
  | [] => fun _ _ h => by rw [itemForms] at h; cases h; exact .nil
  | d :: rest => fun hplain hinline h => by
      rw [itemForms] at h
      rw [Document.AllPlain] at hplain
      rw [AllInline] at hinline
      obtain ⟨form, hform, h⟩ := Option.bind_eq_some_iff.mp h
      obtain ⟨forms, hforms, h⟩ := Option.bind_eq_some_iff.mp h
      cases h
      exact .cons (reads_valueForm d hplain.1 hinline.1 hform)
        (reads_itemForms rest hplain.2 hinline.2 hforms)

end

end NginxConfig.Toml
