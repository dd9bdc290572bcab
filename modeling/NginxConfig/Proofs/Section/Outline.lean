import NginxConfig.Section

/-!
# Text determines the outline

Groups leave no trace in rendered text: they write no line of their own and
indent nothing. What is left of a section without them is its `outline`, a list
of statements and blocks. Nothing else is lost, as long as every text keeps to
one row: two sections then render alike if and only if their outlines are equal
(`text_determines_outline`).

The rows of a text say how they nest. One that ends in an opening brace opens a
block; one of blanks and a closing brace closes it; and a statement is neither,
because it ends in a semicolon or has the `#` of a comment in it. So rows are
read from the front, and at each of them the depth is known before the text is
looked at (`rows_inj`). This is why blanks at the start of a header or of a
statement cannot be taken for indentation.
-/

namespace NginxConfig

/-- What a section writes when its groups are dissolved. -/
inductive Item where
  | statement (text : String)
  | block (name : String) (content : List Item)

namespace Item

mutual

def lines : Item → Nat → List Line
  | .statement text, depth => [⟨depth, text⟩]
  | .block name content, depth =>
    Line.enclose (some name) depth fun inner => linesOfAll content inner

def linesOfAll : List Item → Nat → List Line
  | [], _ => []
  | item :: rest, depth => item.lines depth ++ linesOfAll rest depth

end

theorem linesOfAll_append (items items' : List Item) (depth : Nat) :
    linesOfAll (items ++ items') depth = linesOfAll items depth ++ linesOfAll items' depth := by
  induction items with
  | nil => rfl
  | cons item rest ih => simp only [List.cons_append, linesOfAll, ih, List.append_assoc]

end Item

namespace Section

/-! ## Outlines -/

def optionItems (options : Options) : List Item :=
  options.entries.map fun p => .statement (Directive.ofOption p.1 p.2).statement

mutual

/-- The statements and blocks that a section writes, in order. -/
def outline : Section → List Item
  | .directive d => [.statement d.statement]
  | .container (some name) options sections =>
    [.block name (optionItems options ++ outlineOfAll sections)]
  | .container none options sections => optionItems options ++ outlineOfAll sections

def outlineOfAll : List Section → List Item
  | [] => []
  | s :: rest => s.outline ++ outlineOfAll rest

end

theorem linesOfAll_optionItems (options : Options) (depth : Nat) :
    Item.linesOfAll (optionItems options) depth = optionLines options depth := by
  rw [optionItems, optionLines]
  induction options.entries with
  | nil => rfl
  | cons p rest ih =>
      rw [List.map_cons, Item.linesOfAll, Item.lines, ih, List.map_cons, List.singleton_append]

mutual

/-- A section has the lines of its outline. -/
theorem linesOfAll_outline :
    ∀ (s : Section) (depth : Nat), Item.linesOfAll s.outline depth = s.lines depth
  | .directive d, depth => rfl
  | .container (some name) options sections, depth => by
      rw [outline, Item.linesOfAll, Item.linesOfAll, List.append_nil, Item.lines, lines]
      refine congrArg _ (funext fun inner => ?_)
      rw [Item.linesOfAll_append, linesOfAll_optionItems, linesOfAll_outlineOfAll sections inner]
  | .container none options sections, depth => by
      rw [outline, Item.linesOfAll_append, linesOfAll_optionItems,
        linesOfAll_outlineOfAll sections depth]
      rfl

theorem linesOfAll_outlineOfAll :
    ∀ (sections : List Section) (depth : Nat),
      Item.linesOfAll (outlineOfAll sections) depth = linesOfAll sections depth
  | [], _ => rfl
  | s :: rest, depth => by
      rw [outlineOfAll, Item.linesOfAll_append, linesOfAll_outline s depth,
        linesOfAll_outlineOfAll rest depth, linesOfAll]

end

end Section

/-! ## Rows -/

namespace Line

/-- A line without the line feed before it. -/
def row (l : Line) : List Char :=
  List.replicate (indentWidth * l.depth) indentChar ++ l.text.toList

theorem not_mem_row {l : Line} (h : '\n' ∉ l.text.toList) : '\n' ∉ l.row := by
  rw [row, List.mem_append, not_or]
  exact ⟨fun hm => absurd (List.eq_of_mem_replicate hm) (by decide), h⟩

theorem toList_renderAll (ls : List Line) :
    (renderAll ls).toList = ['\n'].intercalate ([] :: ls.map row) := by
  induction ls with
  | nil => rfl
  | cons l rest ih =>
      have hfirst : l.render.toList = '\n' :: l.row := by
        simp only [render, indent, row, String.toList_append, String.toList_ofList,
          List.append_assoc]
        rfl
      have hcons : (renderAll (l :: rest)).toList = l.render.toList ++ (renderAll rest).toList := by
        rw [renderAll, renderAll, String.toList_join, String.toList_join, List.map_cons,
          List.flatMap_cons]
      rw [hcons, ih, hfirst]
      cases rest with
      | nil => simp [List.intercalate]
      | cons l' rest => simp [List.intercalate]

/-- Lines without line feeds inside are cut apart at the line feeds before them. -/
theorem splitOn_renderAll {ls : List Line} (h : ∀ l ∈ ls, '\n' ∉ l.text.toList) :
    (renderAll ls).toList.splitOn '\n' = [] :: ls.map row := by
  have hrows : ∀ r ∈ [] :: ls.map row, '\n' ∉ r := by
    intro r hr
    rcases List.mem_cons.mp hr with rfl | hr
    · exact List.not_mem_nil
    · obtain ⟨l, hl, rfl⟩ := List.mem_map.mp hr
      exact not_mem_row (h l hl)
  rw [toList_renderAll, List.splitOn_intercalate '\n' hrows (List.cons_ne_nil _ _)]

/-- Lines without line feeds inside can be told apart in the text. -/
theorem rows_eq_of_renderAll_eq {ls ls' : List Line} (h : ∀ l ∈ ls, '\n' ∉ l.text.toList)
    (h' : ∀ l ∈ ls', '\n' ∉ l.text.toList) (heq : renderAll ls = renderAll ls') :
    ls.map row = ls'.map row := by
  have hcons := (splitOn_renderAll h).symm.trans (heq ▸ splitOn_renderAll h')
  exact (List.cons.inj hcons).2

end Line

/-! ## Reading rows back -/

/-- A header or a statement on one row. A statement can be told from an opening
and from a closing line. -/
structure Item.Readable (text : String) : Prop where
  oneRow : '\n' ∉ text.toList
  not_opening : text.toList.getLast? ≠ some '{'
  not_closing : ';' ∈ text.toList ∨ '#' ∈ text.toList

namespace Item

mutual

/-- Every text of an item keeps to its row, and every statement is seen to be one. -/
def Legible : Item → Prop
  | .statement text => Readable text
  | .block name content => '\n' ∉ name.toList ∧ LegibleAll content

def LegibleAll : List Item → Prop
  | [] => True
  | item :: rest => item.Legible ∧ LegibleAll rest

end

theorem legibleAll_append {items items' : List Item} (h : LegibleAll items)
    (h' : LegibleAll items') : LegibleAll (items ++ items') := by
  induction items with
  | nil => exact h'
  | cons item rest ih => exact ⟨h.1, ih h.2⟩

/-- The row that an item begins with. -/
def firstRow (depth : Nat) : Item → List Char
  | .statement text => Line.row ⟨depth, text⟩
  | .block name _ => (Line.opening depth name).row

/-- The rows of items at a depth. -/
def rows (items : List Item) (depth : Nat) : List (List Char) :=
  (linesOfAll items depth).map Line.row

theorem rows_statement (text : String) (rest : List Item) (depth : Nat) :
    rows (.statement text :: rest) depth = Line.row ⟨depth, text⟩ :: rows rest depth :=
  rfl

theorem rows_block (name : String) (content rest : List Item) (depth : Nat) :
    rows (.block name content :: rest) depth =
      (Line.opening depth name).row ::
        (rows content (depth + 1) ++ (Line.closing depth).row :: rows rest depth) := by
  simp [rows, linesOfAll, lines, Line.enclose]

theorem exists_rows_cons (item : Item) (rest : List Item) (depth : Nat) :
    ∃ others, rows (item :: rest) depth = item.firstRow depth :: others := by
  cases item with
  | statement text => exact ⟨_, rows_statement text rest depth⟩
  | block name content => exact ⟨_, rows_block name content rest depth⟩

/-! ## Rows that cannot be confused -/

theorem row_closing (depth : Nat) :
    (Line.closing depth).row = List.replicate (indentWidth * depth) indentChar ++ ['}'] := by
  have htext : (Line.closing depth).text.toList = ['}'] := by simp [Line.closing]
  rw [Line.row, htext, Line.closing]

theorem getLast?_opening (depth : Nat) (name : String) :
    (Line.opening depth name).row.getLast? = some '{' := by
  have htext : (Line.opening depth name).text.toList = name.toList ++ [' ', '{'] := by
    rw [Line.opening, String.toList_append]
    rfl
  rw [Line.row, htext, ← List.append_assoc, List.getLast?_append]
  rfl

theorem getLast?_closing (depth : Nat) : (Line.closing depth).row.getLast? = some '}' := by
  rw [row_closing, List.getLast?_append]
  rfl

theorem statement_ne_opening {text : String} (h : Readable text) (depth depth' : Nat)
    (name : String) : Line.row ⟨depth, text⟩ ≠ (Line.opening depth' name).row := by
  intro heq
  have hlast := congrArg List.getLast? heq
  rw [getLast?_opening, Line.row, List.getLast?_append] at hlast
  cases hc : text.toList.getLast? with
  | none =>
      have hmark := h.not_closing
      rw [List.getLast?_eq_none_iff.mp hc] at hmark
      simp at hmark
  | some c =>
      rw [hc, Option.some_or] at hlast
      exact h.not_opening (hc.trans hlast)

theorem firstRow_ne_closing {item : Item} (h : item.Legible) (depth depth' : Nat) :
    item.firstRow depth ≠ (Line.closing depth').row := by
  intro heq
  cases item with
  | statement text =>
      -- A closing row has blanks and a brace in it, and neither mark of a statement.
      have hfree : ∀ c ∈ (Line.closing depth').row, c = ' ' ∨ c = '}' := by
        intro c hc
        rw [row_closing] at hc
        rcases List.mem_append.mp hc with hc | hc
        · exact Or.inl (List.eq_of_mem_replicate hc)
        · exact Or.inr (List.mem_singleton.mp hc)
      have hrow : ∀ c ∈ text.toList, c = ' ' ∨ c = '}' := fun c hc =>
        hfree c (heq ▸ List.mem_append.mpr (Or.inr hc))
      rcases Readable.not_closing h with hm | hm
      · exact absurd (hrow _ hm) (by decide)
      · exact absurd (hrow _ hm) (by decide)
  | block name content =>
      have hlast := congrArg List.getLast? heq
      rw [getLast?_closing] at hlast
      exact absurd ((getLast?_opening depth name).symm.trans hlast) (by decide)

/-- What can come after the items of a block: nothing, or the row that closes it. -/
inductive Ends : List (List Char) → Prop
  | nil : Ends []
  | closing (depth : Nat) (rest : List (List Char)) : Ends ((Line.closing depth).row :: rest)

theorem not_ends_rows {item : Item} (h : item.Legible) {rest : List Item} {depth : Nat}
    {after : List (List Char)} : ¬ Ends (rows (item :: rest) depth ++ after) := by
  obtain ⟨others, hrows⟩ := exists_rows_cons item rest depth
  rw [hrows]
  intro hends
  generalize heq : item.firstRow depth :: others ++ after = all at hends
  cases hends with
  | nil => cases heq
  | closing depth' rest' => exact firstRow_ne_closing h depth depth' (List.cons.inj heq).1

/-- At a known depth, a row gives its text. -/
theorem text_eq_of_row_eq {depth : Nat} {text text' : String}
    (h : Line.row ⟨depth, text⟩ = Line.row ⟨depth, text'⟩) : text = text' :=
  String.toList_inj.mp (List.append_cancel_left h)

theorem name_eq_of_row_eq {depth : Nat} {name name' : String}
    (h : (Line.opening depth name).row = (Line.opening depth name').row) : name = name' := by
  have htext := congrArg String.toList (text_eq_of_row_eq h)
  rw [String.toList_append, String.toList_append] at htext
  exact String.toList_inj.mp (List.append_cancel_right htext)

/-- Rows are read in one way only: the items of a block, and what is left after
them. -/
theorem rows_inj : ∀ {items items' : List Item} {depth : Nat} {after after' : List (List Char)},
    LegibleAll items → LegibleAll items' → Ends after → Ends after' →
    rows items depth ++ after = rows items' depth ++ after' → items = items' ∧ after = after'
  | [], [], _, _, _, _, _, _, _, heq => ⟨rfl, heq⟩
  | [], item :: rest, depth, after, after', _, h', hends, _, heq => by
      have heq : after = rows (item :: rest) depth ++ after' := heq
      exact absurd (heq ▸ hends) (not_ends_rows h'.1)
  | item :: rest, [], depth, after, after', h, _, _, hends', heq => by
      have heq : rows (item :: rest) depth ++ after = after' := heq
      exact absurd (heq ▸ hends') (not_ends_rows h.1)
  | .statement text :: rest, .statement text' :: rest', depth, after, after', h, h', hends,
    hends', heq => by
      obtain ⟨hrow, htail⟩ := List.cons.inj heq
      obtain ⟨rfl, rfl⟩ := rows_inj h.2 h'.2 hends hends' htail
      exact ⟨by rw [text_eq_of_row_eq hrow], rfl⟩
  | .statement text :: _, .block name _ :: _, depth, _, _, h, _, _, _, heq =>
      absurd (List.cons.inj heq).1 (statement_ne_opening h.1 depth depth name)
  | .block name _ :: _, .statement text :: _, depth, _, _, _, h', _, _, heq =>
      absurd (List.cons.inj heq).1.symm (statement_ne_opening h'.1 depth depth name)
  | .block name content :: rest, .block name' content' :: rest', depth, after, after', h, h',
    hends, hends', heq => by
      rw [rows_block, rows_block, List.cons_append, List.cons_append, List.append_assoc,
        List.append_assoc] at heq
      obtain ⟨hrow, htail⟩ := List.cons.inj heq
      obtain ⟨rfl, hclosed⟩ := rows_inj h.1.2 h'.1.2 (.closing depth _) (.closing depth _) htail
      obtain ⟨rfl, rfl⟩ := rows_inj h.2 h'.2 hends hends' (List.cons.inj hclosed).2
      exact ⟨by rw [name_eq_of_row_eq hrow], rfl⟩

/-- Items whose texts keep to their rows are told by the text of their lines. -/
theorem oneRow_of_mem_linesOfAll :
    ∀ {items : List Item} {depth : Nat}, LegibleAll items →
      ∀ l ∈ linesOfAll items depth, '\n' ∉ l.text.toList
  | .statement text :: rest, depth, h, l, hl => by
      rcases List.mem_cons.mp hl with rfl | hl
      · exact Readable.oneRow h.1
      · exact oneRow_of_mem_linesOfAll h.2 l hl
  | .block name content :: rest, depth, h, l, hl => by
      rw [linesOfAll, lines, Line.enclose, List.mem_append, List.mem_append, List.mem_cons,
        List.mem_singleton] at hl
      rcases hl with ((rfl | hl) | rfl) | hl
      · have hbrace : '\n' ∉ (" \x7b" : String).toList := by decide
        rw [Line.opening, String.toList_append, List.mem_append, not_or]
        exact ⟨h.1.1, hbrace⟩
      · exact oneRow_of_mem_linesOfAll h.1.2 l hl
      · have hbrace : '\n' ∉ ("\x7d" : String).toList := by decide
        exact hbrace
      · exact oneRow_of_mem_linesOfAll h.2 l hl

theorem eq_of_renderAll_eq {items items' : List Item} (h : LegibleAll items)
    (h' : LegibleAll items')
    (heq : Line.renderAll (linesOfAll items 0) = Line.renderAll (linesOfAll items' 0)) :
    items = items' := by
  have hrows : rows items 0 = rows items' 0 :=
    Line.rows_eq_of_renderAll_eq (oneRow_of_mem_linesOfAll h) (oneRow_of_mem_linesOfAll h') heq
  have happend : rows items 0 ++ [] = rows items' 0 ++ [] := by rw [hrows]
  exact (rows_inj h h' .nil .nil happend).1

end Item

/-! ## Sections -/

/-- A directive on one row. A comment does not end like an opening line. -/
def Directive.Legible (d : Directive) : Prop :=
  '\n' ∉ d.statement.toList
    ∧ ∀ offset text, d = .comment offset text → text.toList.getLast? ≠ some '{'

theorem Item.readable_of_semicolon {text : String} (h : '\n' ∉ (text ++ ";").toList) :
    Item.Readable (text ++ ";") := by
  have htext : (text ++ ";").toList = text.toList ++ [';'] := by
    rw [String.toList_append]
    rfl
  refine ⟨h, ?_, Or.inl ?_⟩
  · simp [htext]
  · simp [htext]

theorem Directive.readable_statement {d : Directive} (h : d.Legible) :
    Item.Readable d.statement := by
  obtain ⟨hrow, hcomment⟩ := h
  cases d with
  | bare name => exact Item.readable_of_semicolon hrow
  | single name value => exact Item.readable_of_semicolon hrow
  | multi name values =>
      rw [statement] at hrow ⊢
      split
      · next hnone =>
          rw [hnone] at hrow
          exact Item.readable_of_semicolon hrow
      · next values _ =>
          simp only at hrow
          exact Item.readable_of_semicolon hrow
  | comment offset text =>
      have hlist : (statement (.comment offset text)).toList =
          offset.toList ++ ['#', ' '] ++ text.toList := by
        rw [statement, String.toList_append, String.toList_append]
        rfl
      refine ⟨hrow, ?_, Or.inr (by simp [hlist])⟩
      rw [hlist, List.getLast?_append]
      cases hlast : text.toList.getLast? with
      | none => simp
      | some c =>
          rw [Option.some_or, ← hlast]
          exact hcomment offset text rfl

namespace Section

mutual

/-- No header and no statement takes more than one row, and no comment ends in
an opening brace. -/
def Legible : Section → Prop
  | .directive d => d.Legible
  | .container header options sections =>
    (∀ name, header = some name → '\n' ∉ name.toList)
      ∧ (∀ p ∈ options.entries, (Directive.ofOption p.1 p.2).Legible)
      ∧ LegibleAll sections

def LegibleAll : List Section → Prop
  | [] => True
  | s :: rest => s.Legible ∧ LegibleAll rest

end

theorem legibleAll_optionItems {options : Options}
    (h : ∀ p ∈ options.entries, (Directive.ofOption p.1 p.2).Legible) :
    Item.LegibleAll (optionItems options) := by
  rw [optionItems]
  generalize options.entries = entries at h
  induction entries with
  | nil => trivial
  | cons p rest ih =>
      rw [List.forall_mem_cons] at h
      exact ⟨Directive.readable_statement h.1, ih h.2⟩

mutual

theorem legibleAll_outline : ∀ {s : Section}, s.Legible → Item.LegibleAll s.outline
  | .directive _, h => ⟨Directive.readable_statement h, trivial⟩
  | .container (some name) _ _, ⟨hname, hoptions, hsections⟩ =>
      ⟨⟨hname name rfl, Item.legibleAll_append (legibleAll_optionItems hoptions)
        (legibleAll_outlineOfAll hsections)⟩, trivial⟩
  | .container none _ _, ⟨_, hoptions, hsections⟩ =>
      Item.legibleAll_append (legibleAll_optionItems hoptions) (legibleAll_outlineOfAll hsections)

theorem legibleAll_outlineOfAll :
    ∀ {sections : List Section}, LegibleAll sections → Item.LegibleAll (outlineOfAll sections)
  | [], _ => trivial
  | _ :: _, ⟨hs, hrest⟩ =>
      Item.legibleAll_append (legibleAll_outline hs) (legibleAll_outlineOfAll hrest)

end

/-- A section is rendered from its outline alone. -/
theorem render_eq (s : Section) : s.render = Line.renderAll (Item.linesOfAll s.outline 0) := by
  rw [render, renderAt, linesOfAll_outline]

/-- **Text determines the outline.** Two sections whose headers and statements
keep to one row each, and whose comments do not end in an opening brace, have
the same text if and only if they write the same statements and blocks. -/
theorem text_determines_outline {a b : Section} (ha : a.Legible) (hb : b.Legible) :
    a.render = b.render ↔ a.outline = b.outline := by
  rw [render_eq, render_eq]
  constructor
  · exact Item.eq_of_renderAll_eq (legibleAll_outline ha) (legibleAll_outline hb)
  · intro h
    rw [h]

/-- A block with a group in it, and texts that could pass for braces. -/
def grouped : Section :=
  .container (some "if ($x = \x7b)") ∅
    [.container none (.ofList [("root", .str "a  b")]) [.directive (.comment "" "\x7d")]]

/-- The same without the group, and with the words of the option in a list. -/
def ungrouped : Section :=
  .container (some "if ($x = \x7b)") ∅
    [.directive (.multi "root" ["a", "b"]), .directive (.comment "" "\x7d")]

theorem text_determines_outline_grouped :
    grouped.Legible ∧ ungrouped.Legible ∧ grouped.render = ungrouped.render := by
  have hheader : ∀ name, some "if ($x = \x7b)" = some name → '\n' ∉ name.toList := by
    rintro name ⟨rfl⟩
    decide
  have hcomment : (Directive.comment "" "\x7d").Legible :=
    ⟨by decide, by rintro offset text ⟨rfl, rfl⟩; decide⟩
  have hroot : (Directive.multi "root" ["a", "b"]).Legible :=
    ⟨by decide, fun offset text h => by cases h⟩
  have hoption : ∀ p ∈ (Table.ofList [("root", Value.str "a  b")]).entries,
      (Directive.ofOption p.1 p.2).Legible := by
    intro p hp
    obtain rfl := List.mem_singleton.mp hp
    exact hroot
  have hinner : (container none (.ofList [("root", .str "a  b")])
      [.directive (.comment "" "\x7d")]).Legible :=
    ⟨(fun _ h => nomatch h), hoption, hcomment, trivial⟩
  have hgrouped : grouped.Legible :=
    ⟨hheader, fun p hp => absurd hp List.not_mem_nil, hinner, trivial⟩
  have hungrouped : ungrouped.Legible :=
    ⟨hheader, fun p hp => absurd hp List.not_mem_nil, hroot, hcomment, trivial⟩
  exact ⟨hgrouped, hungrouped, (text_determines_outline hgrouped hungrouped).mpr rfl⟩

end Section

end NginxConfig
