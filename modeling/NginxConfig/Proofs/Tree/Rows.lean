import NginxConfig.Proofs.Directive.NormalForm
import NginxConfig.Proofs.Section.Outline
import NginxConfig.Proofs.Text.Numerals
import NginxConfig.Proofs.Tree.Lines

/-!
# One row for each option

The rows of a text are what stands between its line feeds. A line that is written
takes one row if there is no line feed in its text, and rendered lines can be cut
apart again exactly if all of them do (`Line.splitOn_renderAll_iff`).

The statement of an option is made of its name and the text of its value. Numbers
and words bring no line feed with them, and a text with a line feed in it is cut into
words, unless it stands in a list: items are written as they are. So a value keeps
to its row unless a text somewhere inside a list has a line feed
(`Value.KeepsRow`), and this is all that can spoil the rows of a container
(`options_take_one_row`).
-/

namespace NginxConfig

namespace Text

/-- No line feed in the text. -/
def OneRow (s : String) : Prop :=
  '\n' ∉ s.toList

instance (s : String) : Decidable (OneRow s) :=
  inferInstanceAs (Decidable ('\n' ∉ s.toList))

theorem oneRow_append {s t : String} : OneRow (s ++ t) ↔ OneRow s ∧ OneRow t := by
  rw [OneRow, String.toList_append, List.mem_append, not_or]
  rfl

theorem oneRow_join {texts : List String} :
    OneRow (String.join texts) ↔ ∀ s ∈ texts, OneRow s := by
  rw [OneRow, String.toList_join, List.mem_flatMap]
  simp only [not_exists, not_and, OneRow]

/-- A word has no blanks in it, and a line feed is one. -/
theorem oneRow_of_mem_words {s w : String} (h : w ∈ words s) : OneRow w := by
  obtain ⟨cs, hcs, rfl⟩ := List.mem_map.mp h
  intro hfeed
  rw [String.toList_ofList] at hfeed
  have hblank := (wordsOf_solid s.toList cs hcs).2 '\n' hfeed
  exact absurd hblank (by decide)

theorem oneRow_of_not_hasBlank {s : String} (h : hasBlank s = false) : OneRow s := by
  intro hfeed
  exact List.any_eq_false.mp h '\n' hfeed (by decide)

end Text

open Text (OneRow)

/-! ## Numbers -/

namespace Decimal

theorem oneRow_toString_int (n : Int) : OneRow (toString n) :=
  notMem_toString rfl (by decide) n

theorem oneRow_toString_nat (n : Nat) : OneRow (toString n) :=
  oneRow_toString_int n

theorem oneRow_signText (negative : Bool) : OneRow (signText negative) := by
  cases negative <;> decide

theorem oneRow_positionalText (digits : Nat) (grid : Int) :
    OneRow (positionalText "" digits grid) := by
  rw [positionalText]
  split
  · exact Text.oneRow_append.mpr ⟨oneRow_toString_nat _, by decide⟩
  · -- Both parts are cut out of the digits with zeros before them.
    have hpadded : ∀ {zeros : Nat}, '\n' ∉ List.replicate zeros '0' ++ (toString digits).toList :=
      fun hfeed => by
        rcases List.mem_append.mp hfeed with hzero | hdigit
        · exact absurd (List.eq_of_mem_replicate hzero) (by decide)
        · exact oneRow_toString_nat digits hdigit
    refine Text.oneRow_append.mpr ⟨Text.oneRow_append.mpr ⟨?_, by decide⟩, ?_⟩
    · rw [OneRow, String.toList_ofList]
      exact fun hfeed => hpadded (List.mem_of_mem_take hfeed)
    · rw [OneRow, String.toList_ofList]
      exact fun hfeed => hpadded (List.mem_of_mem_drop hfeed)

theorem oneRow_plain_text (x : Float) : OneRow (plain.text x) := by
  rw [Layout.text]
  split
  · decide
  · decide
  · decide
  · exact Text.oneRow_append.mpr ⟨oneRow_signText _, oneRow_positionalText _ _⟩
  · exact Text.oneRow_append.mpr ⟨oneRow_signText _, oneRow_positionalText _ _⟩

theorem oneRow_plain_textExactWhole (x : Float) : OneRow (plain.textExactWhole x) := by
  rw [Layout.textExactWhole]
  split
  · split
    · exact Text.oneRow_append.mpr
        ⟨Text.oneRow_append.mpr ⟨oneRow_signText _, oneRow_toString_nat _⟩, by decide⟩
    · exact oneRow_plain_text x
  · exact oneRow_plain_text x

end Decimal

/-! ## Values -/

namespace Value

/-- No text in a list, at any depth, has a line feed in it. -/
def KeepsRow : Value → Prop
  | .list items => ∀ s, .str s ∈ leavesOfAll items → OneRow s
  | _ => True

theorem oneRow_spaced {a b : String} : OneRow (spaced a b) ↔ OneRow a ∧ OneRow b := by
  have hempty : OneRow "" := by decide
  have hspace : OneRow " " := by decide
  rw [spaced]
  split
  · next h => simp [h, hempty]
  · split
    · next h => simp [h, hempty]
    · simp only [Text.oneRow_append, hspace, and_true]

theorem oneRow_joinTexts {texts : List String} :
    OneRow (joinTexts texts) ↔ ∀ s ∈ texts, OneRow s := by
  induction texts with
  | nil => exact iff_of_true (by decide) fun _ hs => nomatch hs
  | cons s rest ih =>
      rw [← List.singleton_append, joinTexts_append, oneRow_spaced, joinTexts_singleton, ih,
        List.singleton_append, List.forall_mem_cons]

/-- Of what is no list, only texts can have line feeds. -/
theorem oneRow_text_of_leaf {v : Value} (hlist : ∀ items, v ≠ .list items)
    (hstr : ∀ s, v ≠ .str s) : OneRow v.text := by
  cases v with
  | bool b => cases b <;> decide
  | int n => exact Decimal.oneRow_toString_int n.toInt
  | float x => exact Decimal.oneRow_plain_textExactWhole x
  | str s => exact absurd rfl (hstr s)
  | list items => exact absurd rfl (hlist items)
  | empty => decide

theorem oneRow_text_iff (v : Value) : OneRow v.text ↔ ∀ s, .str s ∈ v.leaves → OneRow s := by
  rw [text_eq_joinTexts, oneRow_joinTexts, List.forall_mem_map]
  constructor
  · exact fun h s hs => h (.str s) hs
  · intro h leaf hleaf
    by_cases hstr : ∃ s, leaf = .str s
    · obtain ⟨s, rfl⟩ := hstr
      exact h s hleaf
    · exact oneRow_text_of_leaf (ne_list_of_mem_leaves hleaf) fun s hs => hstr ⟨s, hs⟩

end Value

/-! ## Statements -/

namespace Directive

theorem oneRow_written {text : String} : OneRow (written text) ↔ OneRow text := by
  have hspace : OneRow " " := by decide
  rw [written]
  split
  · next h => rw [h]
  · simp only [Text.oneRow_append, hspace, true_and]

theorem oneRow_semicolon {s : String} : OneRow (s ++ ";") ↔ OneRow s := by
  have hsemicolon : OneRow ";" := by decide
  rw [Text.oneRow_append, and_iff_left hsemicolon]

/-- The words of a text are the only thing that is written of it, if it has blanks. -/
theorem oneRow_statement_of_hasBlank {name s : String} (h : Text.hasBlank s = true) :
    OneRow (ofOption name (.str s)).statement ↔ OneRow name := by
  have hspace : OneRow " " := by decide
  have hwords : OneRow (String.join ((Text.words s).map (" " ++ ·))) := by
    refine Text.oneRow_join.mpr fun t ht => ?_
    obtain ⟨w, hw, rfl⟩ := List.mem_map.mp ht
    exact Text.oneRow_append.mpr ⟨hspace, Text.oneRow_of_mem_words hw⟩
  rw [statement_ofOption_of_hasBlank h, oneRow_semicolon, Text.oneRow_append, and_iff_left hwords]

theorem oneRow_statement_iff {name : String} {v : Value} :
    OneRow (ofOption name v).statement ↔ OneRow name ∧ v.KeepsRow := by
  have htext : ∀ {v : Value}, (∀ s, v = .str s → Text.hasBlank s = false) →
      (OneRow (ofOption name v).statement ↔ OneRow name ∧ OneRow v.text) := fun hv => by
    rw [statement_ofOption hv, oneRow_semicolon, Text.oneRow_append, oneRow_written]
  have hleaf : ∀ {v : Value}, (∀ items, v ≠ .list items) → (∀ s, v ≠ .str s) →
      (OneRow (ofOption name v).statement ↔ OneRow name ∧ True) := fun hlist hstr => by
    rw [htext fun s hs => absurd hs (hstr s),
      iff_true_intro (Value.oneRow_text_of_leaf hlist hstr)]
  cases v with
  | list items =>
      rw [htext (v := .list items) (by simp), Value.oneRow_text_iff]
      rfl
  | str s =>
      cases hblank : Text.hasBlank s with
      | true => rw [oneRow_statement_of_hasBlank hblank]; exact (and_iff_left trivial).symm
      | false =>
          have hkept : OneRow (Value.str s).text := Text.oneRow_of_not_hasBlank hblank
          rw [htext fun t ht => Value.str.inj ht ▸ hblank, iff_true_intro hkept]
          rfl
  | bool b => exact hleaf (by simp) (by simp)
  | int n => exact hleaf (by simp) (by simp)
  | float x => exact hleaf (by simp) (by simp)
  | empty => exact hleaf (by simp) (by simp)

end Directive

/-! ## Rows -/

/-- No part that a list is cut into at an element has that element in it. -/
theorem not_mem_of_mem_splitOn {α : Type} [BEq α] [LawfulBEq α] {a : α} :
    ∀ {l part : List α}, part ∈ l.splitOn a → a ∉ part
  | [], part, h => by
      rw [List.splitOn_nil, List.mem_singleton] at h
      rw [h]
      exact List.not_mem_nil
  | x :: l, part, h => by
      rw [List.splitOn_cons_eq_if_modifyHead] at h
      split at h
      · rcases List.mem_cons.mp h with rfl | h
        · exact List.not_mem_nil
        · exact not_mem_of_mem_splitOn h
      · next hne =>
          obtain ⟨first, rest, hsplit⟩ := List.exists_cons_of_ne_nil (List.splitOn_ne_nil a l)
          rw [hsplit, List.modifyHead_cons] at h
          rcases List.mem_cons.mp h with rfl | h
          · rw [List.mem_cons, not_or]
            exact ⟨fun heq => hne (beq_iff_eq.mpr heq.symm),
              not_mem_of_mem_splitOn (hsplit ▸ List.mem_cons_self)⟩
          · exact not_mem_of_mem_splitOn (l := l) (hsplit ▸ List.mem_cons_of_mem _ h)

theorem Line.oneRow_row {l : Line} (h : '\n' ∉ l.row) : OneRow l.text :=
  fun hfeed => h (List.mem_append_right _ hfeed)

/-- Lines are cut apart again at the line feeds if and only if each takes one row. -/
theorem Line.splitOn_renderAll_iff {ls : List Line} :
    (renderAll ls).toList.splitOn '\n' = [] :: ls.map row ↔ ∀ l ∈ ls, OneRow l.text := by
  constructor
  · intro hsplit l hl
    refine oneRow_row (not_mem_of_mem_splitOn (l := (renderAll ls).toList) ?_)
    rw [hsplit]
    exact List.mem_cons_of_mem _ (List.mem_map_of_mem hl)
  · exact splitOn_renderAll

/-! ## Containers without sections -/

/-- The lines of a container that has options only. -/
def Line.ofOptions (header : Option String) (options : Options) (depth : Nat) : List Line :=
  enclose header depth fun inner =>
    options.entries.map fun p => ⟨inner, (Directive.ofOption p.1 p.2).statement⟩

theorem Line.length_ofOptions (header : Option String) (options : Options) (depth : Nat) :
    (ofOptions header options depth).length =
      options.entries.length + if header.isSome then 2 else 0 := by
  cases header with
  | none => exact List.length_map _
  | some name =>
      simp only [ofOptions, enclose, List.length_append, List.length_cons, List.length_map,
        List.length_nil, Option.isSome_some, if_true]

theorem Line.oneRow_ofOptions_iff (header : Option String) (options : Options) (depth : Nat) :
    (∀ l ∈ ofOptions header options depth, OneRow l.text) ↔
      (∀ name, header = some name → OneRow name) ∧
        ∀ p ∈ options.entries, OneRow p.1 ∧ p.2.KeepsRow := by
  have hoptions : ∀ inner : Nat, (∀ l ∈ options.entries.map fun p =>
        (⟨inner, (Directive.ofOption p.1 p.2).statement⟩ : Line), OneRow l.text) ↔
      ∀ p ∈ options.entries, OneRow p.1 ∧ p.2.KeepsRow := fun inner => by
    rw [List.forall_mem_map]
    exact forall₂_congr fun p _ => Directive.oneRow_statement_iff
  cases header with
  | none =>
      refine (hoptions depth).trans ?_
      exact (and_iff_right fun _ h => nomatch h).symm
  | some name =>
      have hopening : OneRow (opening depth name).text ↔ OneRow name := by
        have hbrace : OneRow " \x7b" := by decide
        rw [opening, Text.oneRow_append, and_iff_left hbrace]
      have hclosing : OneRow (closing depth).text := by
        have hbrace : OneRow "\x7d" := by decide
        exact hbrace
      simp only [ofOptions, enclose, List.cons_append, List.forall_mem_cons,
        List.forall_mem_append, hopening,
        hoptions (depth + 1), hclosing, List.not_mem_nil, false_implies, implies_true, and_true,
        Option.some.injEq, forall_eq']

theorem Section.lines_ofOptions (header : Option String) (options : Options) (depth : Nat) :
    (container header options []).lines depth = Line.ofOptions header options depth := by
  simp only [lines, linesOfAll, List.append_nil]
  rfl

theorem Tree.lines_ofOptions {t : Tree} {id : NodeId} {header : Option String} {options : Options}
    (h : t.container? id = some ⟨header, options, []⟩) (depth : Nat) :
    t.lines id depth = Line.ofOptions header options depth := by
  obtain ⟨levels, hsize⟩ :=
    Nat.exists_eq_add_one_of_ne_zero (Nat.ne_zero_of_lt (HasContainer.lt_size ⟨_, h⟩))
  rw [lines, hsize, linesFrom_container h]
  simp only [List.filter_nil, List.flatMap_nil, List.append_nil]
  rfl

/-- **Each option takes one row.** The statement of an option has no line feed in it if
and only if its name has none and its value keeps to its row, as every value does but a
list with a text in it that has one. A container without sections, on its own or in a
tree, is written as one line for each option, with one more before and one behind if it
has a header. Its text falls into these rows if and only if the header, the names and the
values keep to theirs. -/
theorem options_take_one_row (name : String) (v : Value) (header : Option String)
    (options : Options) (depth : Nat) :
    (OneRow (Directive.ofOption name v).statement ↔ OneRow name ∧ v.KeepsRow)
      ∧ let ls := Line.ofOptions header options depth
        ls.length = options.entries.length + (if header.isSome then 2 else 0)
          ∧ (Section.container header options []).renderAt depth = Line.renderAll ls
          ∧ (∀ (t : Tree) id, t.container? id = some ⟨header, options, []⟩ →
              Line.renderAll (t.lines id depth) = Line.renderAll ls)
          ∧ ((Line.renderAll ls).toList.splitOn '\n' = [] :: ls.map Line.row ↔
              (∀ title, header = some title → OneRow title) ∧
                ∀ p ∈ options.entries, OneRow p.1 ∧ p.2.KeepsRow) := by
  refine ⟨Directive.oneRow_statement_iff, Line.length_ofOptions header options depth, ?_,
    fun t id hc => ?_, ?_⟩
  · rw [Section.renderAt, Section.lines_ofOptions]
  · rw [Tree.lines_ofOptions hc]
  · rw [Line.splitOn_renderAll_iff, Line.oneRow_ofOptions_iff]

/-- An item of a list is not cut into words. -/
theorem not_always_one_row :
    ¬ ∀ (name : String) (v : Value),
        OneRow name → OneRow (Directive.ofOption name v).statement := by
  intro h
  exact absurd (h "index" (.list [.str "a\nb"]) (by decide)) (by decide)

end NginxConfig
