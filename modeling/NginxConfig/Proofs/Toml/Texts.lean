import NginxConfig.Proofs.Text.Numerals
import NginxConfig.Toml.Scan
import NginxConfig.Toml.Writer

/-!
# TOML texts come back

A text is written in one of four forms. The two forms with escapes can hold
every text; the two without are for texts that have no character that would end
them or has to be escaped. A form on several lines ends with the first three
quotes in a row, and up to two quotes before these belong to the text: so no
form may have three quotes in a row inside, and it may end with two
(`text?_textForm`). A key has the forms on one line, and needs no quotes if it
is made of letters, digits, dashes and underscores (`simpleKey?_keyForm`).
-/

namespace NginxConfig.Toml

open Text

/-! ## Characters -/

/-- What is no control stands for itself, on a line or between two. -/
theorem isPlain_of_not_isControl {c : Char} (h : isControl c = false) (hline : c ≠ '\n') :
    isPlain c = true := by
  simp only [isControl, isPlain, Bool.and_eq_false_iff, bne_eq_false_iff_eq, hline,
    Bool.or_eq_false_iff, Bool.or_eq_true, Bool.and_eq_true, beq_iff_eq, bne_iff_ne,
    decide_eq_true_eq, decide_eq_false_iff_not, beq_eq_false_iff_ne, or_false] at h ⊢
  rcases h with h | ⟨hlow, hdel⟩
  · exact Or.inl h
  · exact Or.inr ⟨Nat.not_lt.mp hlow, hdel⟩

/-- A control is written with its number. -/
theorem escape?_control {c : Char} (h : c.toNat < 256) (rest : List Char) :
    escape? ('u' :: '0' :: '0' :: twoDigits capitalDigit c.toNat ++ rest) = some (c, rest) := by
  have hvalid : c.toNat.isValidChar := c.valid
  have hscalar : Text.scalar? c.toNat = some c := by
    rw [Text.scalar?, if_pos hvalid, Char.ofNat_toNat]
  have hhex := hexNumber?_twoDigits hexValue?_capitalDigit h
  rw [twoDigits] at hhex
  simp only [twoDigits, List.cons_append, List.nil_append, escape?, hhex, Option.bind_some,
    hscalar, Option.map_some]

/-- A character is written as it is, or as an escape that stands for it. -/
theorem escapeChar_cases (c : Char) :
    (escapeChar c = [c] ∧ isPlain c = true ∧ c ≠ '\x22' ∧ c ≠ '\\')
      ∨ ∃ e, escapeChar c = '\\' :: e ∧ ∀ rest, escape? (e ++ rest) = some (c, rest)
        ∧ lineBreak? (skipSpace (e ++ rest)) = none := by
  rw [escapeChar.eq_def]
  split
  · exact Or.inr ⟨_, rfl, fun rest => ⟨rfl, rfl⟩⟩
  · exact Or.inr ⟨_, rfl, fun rest => ⟨rfl, rfl⟩⟩
  · exact Or.inr ⟨_, rfl, fun rest => ⟨rfl, rfl⟩⟩
  · exact Or.inr ⟨_, rfl, fun rest => ⟨rfl, rfl⟩⟩
  · exact Or.inr ⟨_, rfl, fun rest => ⟨rfl, rfl⟩⟩
  · exact Or.inr ⟨_, rfl, fun rest => ⟨rfl, rfl⟩⟩
  · exact Or.inr ⟨_, rfl, fun rest => ⟨rfl, rfl⟩⟩
  · next _ _ hline _ _ hquote hback =>
      split
      · next hcontrol =>
          have hsmall : c.toNat < 256 := by
            simp only [isControl, Bool.and_eq_true, Bool.or_eq_true, decide_eq_true_eq,
              beq_iff_eq] at hcontrol
            omega
          exact Or.inr ⟨'u' :: '0' :: '0' :: twoDigits capitalDigit c.toNat, rfl,
            fun rest => ⟨escape?_control hsmall rest, rfl⟩⟩
      · next hcontrol =>
          exact Or.inl ⟨rfl, isPlain_of_not_isControl (Bool.eq_false_iff.mpr hcontrol) hline,
            hquote, hback⟩

/-! ## Texts on one line -/

theorem escapeAll_line (cs : List Char) : escapeAll false 0 0 cs = cs.flatMap escapeChar := by
  induction cs with
  | nil => rfl
  | cons c cs ih =>
      rw [escapeAll, if_neg (fun h => Nat.not_lt_zero _ h.2), if_neg (fun h => nomatch h.2), ih,
        List.flatMap_cons]

/-- Each character takes one step. -/
theorem basicText_escaped {cs rest : List Char} {steps : Nat} (h : cs.length < steps) :
    basicText steps (cs.flatMap escapeChar ++ '\x22' :: rest) = some (cs, rest) := by
  induction cs generalizing steps with
  | nil =>
      cases steps with
      | zero => exact absurd h (Nat.not_lt_zero _)
      | succ steps => rw [List.flatMap_nil, List.nil_append, basicText, if_pos rfl]
  | cons c cs ih =>
      cases steps with
      | zero => exact absurd h (Nat.not_lt_zero _)
      | succ steps =>
          have hrest := ih (Nat.lt_of_succ_lt_succ h)
          rw [List.flatMap_cons, List.append_assoc]
          rcases escapeChar_cases c with ⟨heq, hplain, hquote, hback⟩ | ⟨e, heq, hescape⟩
          · rw [heq, List.singleton_append, basicText, if_neg hquote, if_neg hback, if_pos hplain,
              hrest]
            rfl
          · rw [heq, List.cons_append, basicText, if_neg (by decide), if_pos rfl,
              (hescape _).1, Option.bind_some]
            simp only [hrest]
            rfl

theorem literalText_plain {cs rest : List Char}
    (h : ∀ c ∈ cs, isPlain c = true ∧ c ≠ '\x27') :
    literalText (cs ++ '\x27' :: rest) = some (cs, rest) := by
  induction cs with
  | nil => rfl
  | cons c cs ih =>
      obtain ⟨hplain, hquote⟩ := h c List.mem_cons_self
      rw [List.cons_append, literalText, if_neg hquote, if_pos hplain,
        ih fun d hd => h d (List.mem_cons_of_mem c hd)]
      rfl

/-! ## Texts on several lines -/

/-- No quote stands behind a text. -/
def NoQuote (rest : List Char) : Prop :=
  ∀ c ∈ rest.head?, c ≠ '\x22' ∧ c ≠ '\x27'

/-- Three quotes end a text, and up to two before them belong to it. -/
theorem closing?_replicate {quote : Char} {k : Nat} (hk : k ≤ 2) {rest : List Char}
    (h : ∀ c ∈ rest.head?, c ≠ quote) :
    closing? quote (List.replicate k quote ++ (List.replicate 3 quote ++ rest)) =
      some (List.replicate k quote, rest) := by
  match k, hk with
  | 0, _ =>
      cases rest with
      | nil => simp [closing?]
      | cons c rest =>
          have hc : c ≠ quote := h c rfl
          cases rest <;> simp [closing?, List.replicate, hc]
  | 1, _ =>
      cases rest with
      | nil => simp [closing?, List.replicate]
      | cons c rest =>
          have hc : c ≠ quote := h c rfl
          simp [closing?, List.replicate, hc]
  | 2, _ => simp [closing?, List.replicate]

theorem closing?_eq_none {quote : Char} {cs : List Char}
    (h : ¬ List.replicate 3 quote <+: cs) : closing? quote cs = none := by
  rw [closing?.eq_def]
  split
  · next a b c rest =>
      rw [if_neg]
      rintro ⟨rfl, rfl, rfl⟩
      exact h ⟨rest, rfl⟩
  · rfl

theorem lineBreak?_cons {c : Char} (hline : c ≠ '\n') (hreturn : c ≠ '\r') (rest : List Char) :
    lineBreak? (c :: rest) = none := by
  rw [lineBreak?.eq_def]
  split
  · next h => exact absurd (List.cons.inj h).1 hline
  · next h => exact absurd (List.cons.inj h).1 hreturn
  · rfl

/-- Quotes that end a text are at its end, unless there are three in a row
before. -/
theorem closing?_append {quote : Char} {cs rest : List Char}
    (h : ¬ List.replicate 3 quote <+: cs) (hrest : ∀ c ∈ rest.head?, c ≠ quote) :
    (∃ k, cs = List.replicate k quote
        ∧ closing? quote (cs ++ (List.replicate 3 quote ++ rest)) = some (cs, rest))
      ∨ closing? quote (cs ++ (List.replicate 3 quote ++ rest)) = none := by
  by_cases hall : ∃ k, cs = List.replicate k quote
  · obtain ⟨k, rfl⟩ := hall
    have hk : k ≤ 2 := by
      refine Nat.le_of_not_lt fun hlt => h ⟨List.replicate (k - 3) quote, ?_⟩
      rw [List.replicate_append_replicate, Nat.add_sub_cancel' hlt]
    exact Or.inl ⟨k, rfl, closing?_replicate hk hrest⟩
  · refine Or.inr (closing?_eq_none fun hprefix => ?_)
    rcases List.prefix_or_prefix_of_prefix hprefix (List.prefix_append cs _) with hp | hp
    · exact h hp
    · exact hall ⟨_, (List.prefix_replicate_iff.mp hp).2⟩

theorem literalLines_closed {cs : List Char} {r : List Char × List Char}
    (h : closing? '\x27' cs = some r) (steps : Nat) : literalLines (steps + 1) cs = some r := by
  cases cs with
  | nil => cases h
  | cons c cs => rw [literalLines, h]

theorem basicLines_closed {cs : List Char} {r : List Char × List Char}
    (h : closing? '\x22' cs = some r) (steps : Nat) : basicLines (steps + 1) cs = some r := by
  cases cs with
  | nil => cases h
  | cons c cs => rw [basicLines, h]

theorem literalLines_plain {cs rest : List Char} {steps : Nat}
    (hplain : ∀ c ∈ cs, isPlain c = true ∨ c = '\n') (hruns : ¬ List.replicate 3 '\x27' <:+: cs)
    (hrest : NoQuote rest) (h : cs.length < steps) :
    literalLines steps (cs ++ (List.replicate 3 '\x27' ++ rest)) = some (cs, rest) := by
  induction cs generalizing steps with
  | nil =>
      obtain ⟨steps, rfl⟩ := Nat.exists_eq_add_one_of_ne_zero (Nat.ne_zero_of_lt h)
      exact literalLines_closed (closing?_replicate (Nat.zero_le 2) fun c hc => (hrest c hc).2) steps
  | cons c cs ih =>
      obtain ⟨steps, rfl⟩ := Nat.exists_eq_add_one_of_ne_zero (Nat.ne_zero_of_lt h)
      rcases closing?_append (fun hp => hruns hp.isInfix) (fun c hc => (hrest c hc).2) with
        ⟨k, -, hclosed⟩ | hopen
      · exact literalLines_closed hclosed steps
      · have hmore := ih (fun d hd => hplain d (List.mem_cons_of_mem c hd))
          (fun hp => hruns (List.infix_cons hp)) (Nat.lt_of_succ_lt_succ h)
        rw [List.cons_append] at hopen ⊢
        rw [literalLines, hopen]
        by_cases hline : c = '\n'
        · subst hline
          simp only [lineBreak?, hmore]
          rfl
        · have hc : isPlain c = true := (hplain c List.mem_cons_self).resolve_right hline
          have hreturn : c ≠ '\r' := by
            rintro rfl
            cases hc
          simp only [lineBreak?_cons hline hreturn, if_pos hc, hmore]
          rfl

theorem escapeAll_eq_quote {lines : Bool} {run seen : Nat} {cs out : List Char}
    (h : escapeAll lines run seen cs = '\x22' :: out) :
    ∃ cs', cs = '\x22' :: cs' ∧ seen < run ∧ out = escapeAll lines run (seen + 1) cs' := by
  cases cs with
  | nil => cases h
  | cons c cs =>
      rw [escapeAll] at h
      split at h
      · next hc =>
          obtain ⟨rfl, hseen⟩ := hc
          exact ⟨cs, rfl, hseen, (List.cons.inj h).2.symm⟩
      split at h
      · next hc =>
          rw [hc.1] at h
          cases h
      · rcases escapeChar_cases c with ⟨heq, -, hquote, -⟩ | ⟨e, heq, -⟩
        · rw [heq] at h
          exact absurd (List.cons.inj h).1 hquote
        · rw [heq] at h
          cases h

theorem escapeAll_ne_nil {lines : Bool} {run seen : Nat} (c : Char) (cs : List Char) :
    escapeAll lines run seen (c :: cs) ≠ [] := by
  rw [escapeAll]
  split
  · exact List.cons_ne_nil _ _
  split
  · exact List.cons_ne_nil _ _
  · rcases escapeChar_cases c with ⟨heq, -⟩ | ⟨e, heq, -⟩ <;> rw [heq] <;>
      exact List.cons_ne_nil _ _

/-- Of the quotes in a row that are written as they are, there are no more than
allowed. -/
theorem escapeAll_run {lines : Bool} {run k : Nat} :
    ∀ {seen : Nat} {cs out : List Char},
      escapeAll lines run seen cs = List.replicate k '\x22' ++ out → k = 0 ∨ seen + k ≤ run := by
  induction k with
  | zero => exact fun _ => Or.inl rfl
  | succ k ih =>
      intro seen cs out h
      obtain ⟨cs', -, hseen, hout⟩ := escapeAll_eq_quote h
      rcases ih hout.symm with rfl | hle
      · exact Or.inr hseen
      · exact Or.inr (by omega)

theorem eq_replicate_of_escapeAll {lines : Bool} {run k : Nat} :
    ∀ {seen : Nat} {cs : List Char},
      escapeAll lines run seen cs = List.replicate k '\x22' → cs = List.replicate k '\x22' := by
  induction k with
  | zero =>
      intro seen cs h
      cases cs with
      | nil => rfl
      | cons c cs => exact absurd h (escapeAll_ne_nil c cs)
  | succ k ih =>
      intro seen cs h
      obtain ⟨cs', rfl, -, hout⟩ := escapeAll_eq_quote h
      rw [ih hout.symm]
      rfl

theorem basicLines_escaped {cs rest : List Char} {seen steps : Nat} (hrest : NoQuote rest)
    (h : cs.length < steps) :
    basicLines steps (escapeAll true 2 seen cs ++ (List.replicate 3 '\x22' ++ rest)) =
      some (cs, rest) := by
  induction cs generalizing steps seen with
  | nil =>
      obtain ⟨steps, rfl⟩ := Nat.exists_eq_add_one_of_ne_zero (Nat.ne_zero_of_lt h)
      exact basicLines_closed (closing?_replicate (Nat.zero_le 2) fun c hc => (hrest c hc).1) steps
  | cons c cs ih =>
      obtain ⟨steps, rfl⟩ := Nat.exists_eq_add_one_of_ne_zero (Nat.ne_zero_of_lt h)
      have hruns : ¬ List.replicate 3 '\x22' <+: escapeAll true 2 seen (c :: cs) := by
        rintro ⟨out, hout⟩
        rcases escapeAll_run hout.symm with hzero | hle
        · cases hzero
        · omega
      have hmore (seen : Nat) : basicLines steps
          (escapeAll true 2 seen cs ++ (List.replicate 3 '\x22' ++ rest)) = some (cs, rest) :=
        ih (Nat.lt_of_succ_lt_succ h)
      rcases closing?_append hruns (fun c hc => (hrest c hc).1) with ⟨k, hk, hclosed⟩ | hopen
      · rw [basicLines_closed hclosed steps, hk, eq_replicate_of_escapeAll hk]
      · rw [escapeAll] at hopen ⊢
        by_cases hquote : c = '\x22' ∧ seen < 2
        · rw [if_pos hquote, hquote.1, List.cons_append] at hopen ⊢
          rw [basicLines, hopen]
          have hbreak : ∀ cs, lineBreak? ('\x22' :: cs) = none :=
            lineBreak?_cons (by decide) (by decide)
          simp only [Char.reduceEq, if_false, hbreak]
          rw [if_pos (show isPlain '\x22' = true from rfl), hmore]
          rfl
        rw [if_neg hquote] at hopen ⊢
        by_cases hline : c = '\n'
        · rw [if_pos ⟨hline, rfl⟩, hline, List.cons_append] at hopen ⊢
          rw [basicLines, hopen]
          simp only [Char.reduceEq, if_false, lineBreak?, hmore]
          rfl
        rw [if_neg fun h => hline h.1, List.append_assoc] at hopen ⊢
        rcases escapeChar_cases c with ⟨heq, hplain, -, hback⟩ | ⟨e, heq, hescape⟩
        · have hreturn : c ≠ '\r' := by
            rintro rfl
            cases hplain
          rw [heq, List.singleton_append] at hopen ⊢
          rw [basicLines, hopen]
          simp only [if_neg hback, lineBreak?_cons hline hreturn, if_pos hplain, hmore]
          rfl
        · rw [heq, List.cons_append] at hopen ⊢
          rw [basicLines, hopen]
          simp only [if_true, (hescape _).1, (hescape _).2, Option.bind_some, hmore]
          rfl

/-! ## Choosing a form -/

/-- Counts a character: the run that it continues, and the longest run so far. -/
def countRun (c : Char) (r : Nat × Nat) (d : Char) : Nat × Nat :=
  if d = c then (r.1 + 1, max r.2 (r.1 + 1)) else (0, r.2)

theorem longestRun_eq (c : Char) (cs : List Char) :
    longestRun c cs = (cs.foldl (countRun c) (0, 0)).2 := rfl

theorem snd_le_countRun (c : Char) (cs : List Char) (r : Nat × Nat) :
    r.2 ≤ (cs.foldl (countRun c) r).2 := by
  induction cs generalizing r with
  | nil => exact Nat.le_refl _
  | cons d cs ih =>
      refine Nat.le_trans ?_ (ih (countRun c r d))
      rw [countRun]
      split
      · exact Nat.le_max_left _ _
      · exact Nat.le_refl _

theorem countRun_replicate (c : Char) (n : Nat) (r : Nat × Nat) :
    n = 0 ∨ r.1 + n ≤ ((List.replicate n c).foldl (countRun c) r).2 := by
  induction n generalizing r with
  | zero => exact Or.inl rfl
  | succ n ih =>
      refine Or.inr ?_
      rw [List.replicate_succ, List.foldl_cons]
      rcases ih (countRun c r c) with rfl | hle
      · rw [List.replicate_zero, List.foldl_nil, countRun, if_pos rfl]
        exact Nat.le_max_right _ _
      · rw [countRun, if_pos rfl] at hle ⊢
        omega

/-- A text with a run of a character has one at least as long. -/
theorem le_longestRun {c : Char} {n : Nat} {cs : List Char}
    (h : List.replicate n c <:+: cs) : n ≤ longestRun c cs := by
  obtain ⟨before, after, rfl⟩ := h
  rw [longestRun_eq, List.foldl_append, List.foldl_append]
  refine Nat.le_trans ?_ (snd_le_countRun c after _)
  rcases countRun_replicate c n (before.foldl (countRun c) (0, 0)) with rfl | hle
  · exact Nat.zero_le _
  · exact Nat.le_trans (Nat.le_add_left _ _) hle

theorem not_mem_of_longestRun {c : Char} {cs : List Char} (h : longestRun c cs = 0) : c ∉ cs := by
  intro hmem
  obtain ⟨before, after, rfl⟩ := List.append_of_mem hmem
  have hle : 1 ≤ longestRun c (before ++ c :: after) := le_longestRun ⟨before, after, by simp⟩
  omega

/-! ## Reading a form back -/

/-- An escaped text is at least as long as the text. -/
theorem length_le_escapeAll (lines : Bool) (run seen : Nat) (cs : List Char) :
    cs.length ≤ (escapeAll lines run seen cs).length := by
  induction cs generalizing seen with
  | nil => exact Nat.le_refl 0
  | cons c cs ih =>
      rw [escapeAll]
      split
      · exact Nat.succ_le_succ (ih _)
      split
      · exact Nat.succ_le_succ (ih _)
      · have hpos : 1 ≤ (escapeChar c).length := by
          rcases escapeChar_cases c with ⟨heq, -⟩ | ⟨e, heq, -⟩ <;> rw [heq]
          · exact Nat.le_refl 1
          · exact Nat.le_add_left 1 _
        rw [List.length_cons, List.length_append]
        have := ih 0
        omega

/-- A single quote at the front, with no two behind it, starts a text on one
line. -/
theorem text?_oneDouble {cs : List Char} (h : ¬ List.replicate 2 '\x22' <+: cs) :
    text? ('\x22' :: cs) =
      (basicText (cs.length + 1) cs).map fun (cs, rest) => (String.ofList cs, rest) := by
  simp only [text?]
  split
  · next heq =>
      rw [(List.cons.inj heq).2] at h
      exact absurd ⟨_, rfl⟩ h
  · next heq => rw [(List.cons.inj heq).2]
  all_goals simp_all

theorem text?_oneSingle {cs : List Char} (h : ¬ List.replicate 2 '\x27' <+: cs) :
    text? ('\x27' :: cs) =
      (literalText cs).map fun (cs, rest) => (String.ofList cs, rest) := by
  simp only [text?]
  split
  · next heq => cases heq
  · next heq => cases heq
  · next heq =>
      rw [(List.cons.inj heq).2] at h
      exact absurd ⟨_, rfl⟩ h
  · next heq => rw [(List.cons.inj heq).2]
  all_goals simp_all

/-- What stands behind three quotes and the first break is what was written
there, as long as that does not start with a break of its own. -/
theorem afterBreak_firstBreak {cs body : List Char}
    (h : '\n' ∉ cs → lineBreak? body = none) :
    (lineBreak? (firstBreak cs ++ body)).getD (firstBreak cs ++ body) = body := by
  rw [firstBreak]
  split
  · rfl
  · next hline =>
      rw [List.nil_append, h fun hmem => hline (List.contains_iff_mem.mpr hmem)]
      rfl

section Forms

variable {rest : List Char}

theorem text?_basic (cs : List Char) (hrest : NoQuote rest) :
    text? (basic cs ++ rest) = some (String.ofList cs, rest) := by
  have htwo : ¬ List.replicate 2 '\x22' <+: escapeAll false 0 0 cs ++ '\x22' :: rest := by
    rintro ⟨out, hout⟩
    cases cs with
    | nil =>
        have hhead : rest = '\x22' :: out := (List.cons.inj hout).2.symm
        exact (hrest '\x22' (by rw [hhead]; rfl)).1 rfl
    | cons c cs =>
        -- A quote of the text itself is escaped.
        obtain ⟨d, ds, hd⟩ := List.exists_cons_of_ne_nil (@escapeAll_ne_nil false 0 0 c cs)
        rw [hd] at hout
        obtain rfl : '\x22' = d := (List.cons.inj hout).1
        obtain ⟨-, -, hlt, -⟩ := escapeAll_eq_quote hd
        exact Nat.not_lt_zero _ hlt
  have hlong := length_le_escapeAll false 0 0 cs
  have hform : basic cs ++ rest = '\x22' :: (escapeAll false 0 0 cs ++ '\x22' :: rest) := by
    simp [basic]
  rw [hform, text?_oneDouble htwo, escapeAll_line, basicText_escaped]
  · rfl
  · rw [← escapeAll_line, List.length_append]
    omega

theorem text?_literal {cs : List Char} (hcs : ∀ c ∈ cs, isPlain c = true ∧ c ≠ '\x27')
    (hrest : NoQuote rest) : text? (literal cs ++ rest) = some (String.ofList cs, rest) := by
  have htwo : ¬ List.replicate 2 '\x27' <+: cs ++ '\x27' :: rest := by
    rintro ⟨out, hout⟩
    cases cs with
    | nil =>
        have hhead : rest = '\x27' :: out := (List.cons.inj hout).2.symm
        exact (hrest '\x27' (by rw [hhead]; rfl)).2 rfl
    | cons c cs => exact (hcs c List.mem_cons_self).2 (List.cons.inj hout).1.symm
  have hform : literal cs ++ rest = '\x27' :: (cs ++ '\x27' :: rest) := by
    simp [literal]
  rw [hform, text?_oneSingle htwo, literalText_plain hcs]
  rfl

theorem lineBreak?_escapeAll {cs : List Char} (h : '\n' ∉ cs) (more : List Char) :
    lineBreak? (escapeAll true 2 0 cs ++ (List.replicate 3 '\x22' ++ more)) = none := by
  cases cs with
  | nil => rfl
  | cons c cs =>
      have hline : c ≠ '\n' := fun hc => h (hc ▸ List.mem_cons_self)
      rw [escapeAll]
      split
      · next hquote =>
          rw [hquote.1]
          exact lineBreak?_cons (by decide) (by decide) _
      rw [if_neg fun h => hline h.1]
      rcases escapeChar_cases c with ⟨heq, hplain, -⟩ | ⟨e, heq, -⟩
      · rw [heq]
        refine lineBreak?_cons hline ?_ _
        rintro rfl
        cases hplain
      · rw [heq]
        exact lineBreak?_cons (by decide) (by decide) _

theorem text?_basicMany (cs : List Char) (hrest : NoQuote rest) :
    text? (basicMany cs ++ rest) = some (String.ofList cs, rest) := by
  have hform : basicMany cs ++ rest = '\x22' :: '\x22' :: '\x22' ::
      (firstBreak cs ++ (escapeAll true 2 0 cs ++ (List.replicate 3 '\x22' ++ rest))) := by
    simp [basicMany, List.replicate]
  have hlong := length_le_escapeAll true 2 0 cs
  rw [hform]
  simp only [text?]
  rw [afterBreak_firstBreak fun h => lineBreak?_escapeAll h rest, basicLines_escaped hrest]
  · rfl
  · simp only [List.length_append]
    omega

theorem text?_literalMany {cs : List Char} (hcs : ∀ c ∈ cs, isPlain c = true ∨ c = '\n')
    (hruns : ¬ List.replicate 3 '\x27' <:+: cs) (hrest : NoQuote rest) :
    text? (literalMany cs ++ rest) = some (String.ofList cs, rest) := by
  have hform : literalMany cs ++ rest = '\x27' :: '\x27' :: '\x27' ::
      (firstBreak cs ++ (cs ++ (List.replicate 3 '\x27' ++ rest))) := by
    simp [literalMany, List.replicate]
  have hbody (hline : '\n' ∉ cs) :
      lineBreak? (cs ++ (List.replicate 3 '\x27' ++ rest)) = none := by
    cases cs with
    | nil => rfl
    | cons c cs =>
        have hc : c ≠ '\n' := fun hc => hline (hc ▸ List.mem_cons_self)
        refine lineBreak?_cons hc ?_ _
        rintro rfl
        cases (hcs '\r' List.mem_cons_self).resolve_right hc
  rw [hform]
  simp only [text?]
  rw [afterBreak_firstBreak hbody, literalLines_plain hcs hruns hrest]
  · rfl
  · simp only [List.length_append]
    omega

/-- **A text comes back from its form**, whatever is in it. -/
theorem text?_textForm (s : String) (hrest : NoQuote rest) :
    text? ((textForm s).toList ++ rest) = some (s, rest) := by
  have hback : some (s, rest) = some (String.ofList s.toList, rest) := by
    rw [String.ofList_toList]
  have hplain {c : Char} (hcontrol : ¬ s.toList.any isControl) (hc : c ∈ s.toList)
      (hline : c ≠ '\n') : isPlain c = true :=
    isPlain_of_not_isControl (Bool.eq_false_iff.mpr fun h =>
      hcontrol (List.any_eq_true.mpr ⟨c, hc, h⟩)) hline
  rw [hback, textForm, String.toList_ofList]
  simp only [Bool.and_eq_true, Bool.not_eq_true', decide_eq_true_eq, beq_iff_eq]
  split
  · exact text?_basic _ hrest
  split
  · next h =>
      obtain ⟨⟨hcontrol, hlines⟩, hsingles⟩ := h
      refine text?_literal (fun c hc => ⟨?_, ?_⟩) hrest
      · refine hplain (Bool.eq_false_iff.mp hcontrol) hc ?_
        rintro rfl
        exact Bool.eq_false_iff.mp hlines (List.contains_iff_mem.mpr hc)
      · rintro rfl
        exact not_mem_of_longestRun hsingles hc
  split
  · exact text?_basicMany _ hrest
  split
  · next h =>
      refine text?_literalMany (fun c hc => ?_) (fun hrun => ?_) hrest
      · by_cases hline : c = '\n'
        · exact Or.inr hline
        · exact Or.inl (hplain (Bool.eq_false_iff.mp h.1) hc hline)
      · have := le_longestRun hrun
        omega
  split
  · exact text?_basicMany _ hrest
  · exact text?_basic _ hrest

end Forms

/-! ## Keys -/

theorem simpleKey?_bare {cs rest : List Char} (hne : cs ≠ []) (hcs : ∀ c ∈ cs, isBareKey c = true)
    (hrest : Stops isBareKey rest) : simpleKey? (cs ++ rest) = some (String.ofList cs, rest) := by
  obtain ⟨c, cs, rfl⟩ := List.exists_cons_of_ne_nil hne
  have hc := hcs c List.mem_cons_self
  have htake : ((c :: cs) ++ rest).takeWhile isBareKey = c :: cs :=
    takeWhile_append_of_stops hcs hrest
  have hdrop : ((c :: cs) ++ rest).dropWhile isBareKey = rest :=
    dropWhile_append_of_stops hcs hrest
  rw [simpleKey?.eq_def]
  split
  · next heq =>
      rw [(List.cons.inj heq).1] at hc
      cases hc
  · next heq =>
      rw [(List.cons.inj heq).1] at hc
      cases hc
  · rw [htake, hdrop]

theorem simpleKey?_basic (cs rest : List Char) :
    simpleKey? (basic cs ++ rest) = some (String.ofList cs, rest) := by
  have hlong := length_le_escapeAll false 0 0 cs
  have hform : basic cs ++ rest = '\x22' :: (escapeAll false 0 0 cs ++ '\x22' :: rest) := by
    simp [basic]
  rw [hform]
  simp only [simpleKey?]
  rw [escapeAll_line, basicText_escaped]
  · rfl
  · rw [← escapeAll_line, List.length_append]
    omega

theorem simpleKey?_literal {cs : List Char} (hcs : ∀ c ∈ cs, isPlain c = true ∧ c ≠ '\x27')
    (rest : List Char) : simpleKey? (literal cs ++ rest) = some (String.ofList cs, rest) := by
  have hform : literal cs ++ rest = '\x27' :: (cs ++ '\x27' :: rest) := by
    simp [literal]
  rw [hform]
  simp only [simpleKey?]
  rw [literalText_plain hcs]
  rfl

/-- **A key comes back from its form.** -/
theorem simpleKey?_keyForm (key : String) {rest : List Char} (hrest : Stops isBareKey rest) :
    simpleKey? ((keyForm key).toList ++ rest) = some (key, rest) := by
  have hback : some (key, rest) = some (String.ofList key.toList, rest) := by
    rw [String.ofList_toList]
  rw [hback, keyForm, String.toList_ofList]
  simp only [Bool.and_eq_true, Bool.not_eq_true', List.isEmpty_eq_false_iff]
  split
  · next h => exact simpleKey?_bare h.1 (List.all_eq_true.mp h.2) hrest
  split
  · exact simpleKey?_basic _ rest
  split
  · next h =>
      obtain ⟨hcontrol, hquote⟩ := h
      refine simpleKey?_literal (fun c hc => ?_) rest
      have hall := List.any_eq_false.mp hcontrol c hc
      simp only [Bool.or_eq_true, beq_iff_eq, not_or, Bool.not_eq_true] at hall
      refine ⟨isPlain_of_not_isControl hall.1 hall.2, ?_⟩
      rintro rfl
      exact Bool.eq_false_iff.mp hquote (List.contains_iff_mem.mpr hc)
  · exact simpleKey?_basic _ rest

end NginxConfig.Toml
