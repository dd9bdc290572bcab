import NginxConfig.Proofs.Toml.Tables

/-!
# TOML texts say what was written

The writer puts one statement on a line, and the reader takes lines off the
front. So what a text says is put together from what its lines say, whatever
comes behind them (`Says`), and the lines of a document are its statements, in
their order. With the statements building the document again, a plain document
in layers comes back from its text (`read_write`). The one thing that cannot be
written is a null (`write?_eq_none`).
-/

namespace NginxConfig.Toml

open Text

/-! ## Lines -/

/-- The lines at the front of a text are these statements, and the reader goes on
behind them. Each line takes one step. -/
def Says (cs : List Char) (found : List Statement) : Prop :=
  ∃ lines ≤ cs.length, ∀ steps rest, statements (lines + steps) (cs ++ rest) =
    (found ++ (statements steps rest).1, (statements steps rest).2)

theorem Says.nil : Says [] [] :=
  ⟨0, Nat.le_refl 0, fun steps rest => by rw [Nat.zero_add]; rfl⟩

theorem Says.append {cs cs' : List Char} {found found' : List Statement} (h : Says cs found)
    (h' : Says cs' found') : Says (cs ++ cs') (found ++ found') := by
  obtain ⟨lines, hlines, htells⟩ := h
  obtain ⟨lines', hlines', htells'⟩ := h'
  refine ⟨lines + lines', ?_, fun steps rest => ?_⟩
  · rw [List.length_append]
    exact Nat.add_le_add hlines hlines'
  · rw [Nat.add_assoc, List.append_assoc, htells, htells', List.append_assoc]

theorem skipSpace_cons {c : Char} (h : isSpace c = false) (cs : List Char) :
    skipSpace (c :: cs) = c :: cs :=
  dropWhile_of_stops (Stops.cons h cs)

theorem Says.blank : Says ['\n'] [] :=
  ⟨1, Nat.le_refl 1, fun steps rest => by rw [Nat.add_comm]; rfl⟩

/-- A line with a statement on it. -/
theorem Says.line {c : Char} {cs : List Char} {s : Statement} (hc : Begins c)
    (h : ∀ rest, statement? (c :: cs ++ '\n' :: rest) = some (s, rest)) :
    Says (c :: cs ++ ['\n']) [s] := by
  refine ⟨1, Nat.le_add_left 1 _, fun steps rest => ?_⟩
  obtain ⟨hspace, hmem⟩ := hc
  simp only [List.mem_cons, List.not_mem_nil, or_false, not_or] at hmem
  have hread := h rest
  rw [List.cons_append] at hread
  rw [Nat.add_comm, List.append_assoc, List.singleton_append, List.cons_append, statements,
    skipSpace_cons hspace]
  dsimp only
  rw [if_neg (by simp only [hmem, or_self, not_false_eq_true]), hread]
  rfl

/-! ## Keys and their paths -/

theorem keyForm_head (key : String) :
    ∃ c cs, (keyForm key).toList = c :: cs ∧ beginsKey c = true := by
  rw [keyForm, String.toList_ofList]
  simp only [Bool.and_eq_true, Bool.not_eq_true', List.isEmpty_eq_false_iff]
  split
  · next h =>
      obtain ⟨c, cs, hcs⟩ := List.exists_cons_of_ne_nil h.1
      refine ⟨c, cs, hcs, ?_⟩
      have hbare : isBareKey c = true := List.all_eq_true.mp h.2 c (hcs ▸ List.mem_cons_self)
      rw [beginsKey, hbare, Bool.or_true]
  split
  · exact ⟨_, _, rfl, rfl⟩
  split
  · exact ⟨_, _, rfl, rfl⟩
  · exact ⟨_, _, rfl, rfl⟩

theorem begins_of_beginsKey {c : Char} (h : beginsKey c = true) : Begins c := by
  refine Begins.of_ne ?_
  simp only [List.mem_cons, List.not_mem_nil, or_false, not_or]
  exact ⟨ne_of_class h rfl, ne_of_class h rfl, ne_of_class h rfl,
    ne_of_class h rfl, ne_of_class h rfl, ne_of_class h rfl⟩

theorem toList_pathForm_one (key : String) : (pathForm [key]).toList = (keyForm key).toList := by
  rw [pathForm, String.toList_intercalate]
  exact List.intercalate_singleton

theorem toList_pathForm_cons (key next : String) (path : List String) :
    (pathForm (key :: next :: path)).toList =
      (keyForm key).toList ++ '.' :: (pathForm (next :: path)).toList := by
  rw [pathForm, pathForm, String.toList_intercalate, String.toList_intercalate]
  simp [List.intercalate_cons_cons]

/-- A path begins as its first key does. -/
theorem pathForm_head (key : String) (path : List String) :
    ∃ c cs, (pathForm (key :: path)).toList = c :: cs ∧ beginsKey c = true := by
  obtain ⟨c, cs, hcs, hc⟩ := keyForm_head key
  cases path with
  | nil => exact ⟨c, cs, (toList_pathForm_one key).trans hcs, hc⟩
  | cons next path =>
      refine ⟨c, cs ++ '.' :: (pathForm (next :: path)).toList, ?_, hc⟩
      rw [toList_pathForm_cons, hcs, List.cons_append]

theorem skipSpace_keyForm (key : String) (cs : List Char) :
    skipSpace ((keyForm key).toList ++ cs) = (keyForm key).toList ++ cs := by
  obtain ⟨c, more, heq, hc⟩ := keyForm_head key
  rw [heq]
  exact skipSpace_cons (begins_of_beginsKey hc).1 _

/-- What may stand behind a path. -/
def EndsPath (rest : List Char) : Prop :=
  Stops isBareKey rest ∧ ∀ c ∈ (skipSpace rest).head?, c ≠ '.'

theorem EndsPath.bracket (cs : List Char) : EndsPath (']' :: cs) := by
  refine ⟨Stops.cons rfl _, fun c hc => ?_⟩
  obtain rfl := Option.some.inj hc
  decide

theorem keys?_pathForm {rest : List Char} (hrest : EndsPath rest) :
    ∀ {path : List String} {key : String} {steps : Nat}, path.length < steps →
      keys? steps ((pathForm (key :: path)).toList ++ rest) = some (key :: path, skipSpace rest)
  | [], key, steps + 1, _ => by
      rw [toList_pathForm_one, keys?, skipSpace_keyForm, simpleKey?_keyForm key hrest.1]
      dsimp only [Option.bind_some]
      split
      · next heq => exact absurd rfl (hrest.2 '.' (by rw [heq]; rfl))
      · rfl
  | next :: path, key, steps + 1, h => by
      have hmore : keys? steps ((pathForm (next :: path)).toList ++ rest) =
          some (next :: path, skipSpace rest) :=
        keys?_pathForm hrest (Nat.lt_of_succ_lt_succ h)
      rw [toList_pathForm_cons, List.append_assoc, List.cons_append, keys?, skipSpace_keyForm,
        simpleKey?_keyForm key (Stops.cons rfl _)]
      dsimp only [Option.bind_some]
      rw [skipSpace_cons rfl]
      simp only [hmore, Option.map_some]

theorem length_le_pathForm (key : String) (path : List String) :
    path.length < (pathForm (key :: path)).toList.length := by
  induction path generalizing key with
  | nil =>
      obtain ⟨c, cs, hcs, -⟩ := pathForm_head key []
      rw [hcs]
      exact Nat.succ_pos _
  | cons next path ih =>
      rw [toList_pathForm_cons, List.length_append, List.length_cons, List.length_cons]
      have := ih next
      omega

/-- **A path comes back from its form.** -/
theorem keyPath?_pathForm (path : List String) (key : String) (hlimit : path.length + 1 < depthLimit)
    {rest : List Char} (hrest : EndsPath rest) :
    keyPath? ((pathForm (path ++ [key])).toList ++ rest) = some (⟨path, key⟩, skipSpace rest) := by
  obtain ⟨first, more, hkeys⟩ := List.exists_cons_of_ne_nil (List.append_ne_nil_of_right_ne_nil path
    (List.cons_ne_nil key []))
  have hlong := length_le_pathForm first more
  have hlength : (path ++ [key]).length < depthLimit := by
    rw [List.length_append]
    exact hlimit
  rw [keyPath?, hkeys, keys?_pathForm hrest, ← hkeys, Option.bind_some]
  · dsimp only
    rw [if_neg (Nat.not_le_of_lt hlength), List.getLast?_concat, List.dropLast_concat,
      Option.map_some]
  · rw [List.length_append]
    omega

/-! ## Statements on their lines -/

theorem lineEnd?_line (rest : List Char) : lineEnd? ('\n' :: rest) = some rest := rfl

theorem statement?_key {c : Char} (hc : beginsKey c = true) (cs : List Char) :
    statement? (c :: cs) =
      (keyPath? (c :: cs)).bind fun (path, rest) =>
        match rest with
        | '=' :: rest =>
          (value (2 * rest.length + 2) 0 (skipSpace rest)).bind fun (d, rest) =>
            (lineEnd? rest).map (.pair path d, ·)
        | _ => none := by
  have hbracket : c ≠ '[' := ne_of_class hc rfl
  rw [statement?.eq_def]
  split
  · next heq => exact absurd (List.cons.inj heq).1 hbracket
  · next heq => exact absurd (List.cons.inj heq).1 hbracket
  · rfl

theorem statement?_pair {key : String} {d : Document} {form : List Char} (h : Reads d form)
    (hheight : d.height < depthLimit) (rest : List Char) :
    statement? ((keyForm key).toList ++ ' ' :: '=' :: ' ' :: (form ++ '\n' :: rest)) =
      some (.pair ⟨[], key⟩ d, rest) := by
  have hends : EndsPath (' ' :: '=' :: ' ' :: (form ++ '\n' :: rest)) := by
    refine ⟨Stops.cons rfl _, fun c hc => ?_⟩
    obtain rfl := Option.some.inj hc
    decide
  have hpath : keyPath? ((pathForm ([] ++ [key])).toList ++ ' ' :: '=' :: ' ' ::
      (form ++ '\n' :: rest)) = some (⟨[], key⟩, '=' :: ' ' :: (form ++ '\n' :: rest)) :=
    keyPath?_pathForm [] key (by decide) hends
  rw [List.nil_append, toList_pathForm_one] at hpath
  have hspace : skipSpace (' ' :: (form ++ '\n' :: rest)) = form ++ '\n' :: rest := by
    obtain ⟨c, cs, rfl, hc⟩ := h.head
    exact skipSpace_cons hc.1 _
  have hvalue : value (2 * (' ' :: (form ++ '\n' :: rest)).length + 2) 0
      (form ++ '\n' :: rest) = some (d, '\n' :: rest) := by
    refine h.value_eq _ 0 _ (fun c hc => Or.inl (Option.some.inj hc).symm) (by rwa [Nat.zero_add]) ?_
    rw [List.length_cons, List.length_append]
    omega
  obtain ⟨c, cs, hcs, hc⟩ := keyForm_head key
  rw [hcs, List.cons_append] at hpath ⊢
  rw [statement?_key hc, hpath]
  simp only [Option.bind_some, hspace, hvalue, lineEnd?_line, Option.map_some]

theorem statement?_header {path : List String} {key : String}
    (hlimit : path.length + 1 < depthLimit) (rest : List Char) :
    statement? ('[' :: ((pathForm (path ++ [key])).toList ++ ']' :: '\n' :: rest)) =
      some (.table ⟨path, key⟩, rest) := by
  have hpath := keyPath?_pathForm path key hlimit (EndsPath.bracket ('\n' :: rest))
  obtain ⟨first, more, hkeys⟩ := List.exists_cons_of_ne_nil (List.append_ne_nil_of_right_ne_nil path
    (List.cons_ne_nil key []))
  obtain ⟨c, cs, hcs, hc⟩ := pathForm_head first more
  rw [hkeys, hcs, List.cons_append] at hpath ⊢
  rw [statement?.eq_def]
  split
  · next heq => exact absurd (List.cons.inj (List.cons.inj heq).2).1 (ne_of_class hc rfl)
  · next heq =>
      rw [(List.cons.inj heq).2] at hpath
      rw [hpath]
      rfl
  · next h => exact absurd rfl (h _)

theorem statement?_rowHeader {path : List String} {key : String}
    (hlimit : path.length + 1 < depthLimit) (rest : List Char) :
    statement? ('[' :: '[' :: ((pathForm (path ++ [key])).toList ++ ']' :: ']' :: '\n' :: rest)) =
      some (.row ⟨path, key⟩, rest) := by
  rw [statement?, keyPath?_pathForm path key hlimit (EndsPath.bracket (']' :: '\n' :: rest))]
  rfl

theorem says_pair {key form : String} {d : Document} (h : Reads d form.toList)
    (hheight : d.height < depthLimit) :
    Says (keyForm key ++ " = " ++ form ++ "\n").toList [.pair ⟨[], key⟩ d] := by
  obtain ⟨c, cs, hcs, hc⟩ := keyForm_head key
  have hline : (keyForm key ++ " = " ++ form ++ "\n").toList =
      c :: (cs ++ ' ' :: '=' :: ' ' :: form.toList) ++ ['\n'] := by
    simp [hcs]
  rw [hline]
  refine Says.line (begins_of_beginsKey hc) fun rest => ?_
  rw [← statement?_pair h hheight rest, hcs]
  simp

theorem says_header (path : List String) (key : String) (hlimit : path.length + 1 < depthLimit) :
    Says ("[" ++ pathForm (path ++ [key]) ++ "]" ++ "\n").toList [.table ⟨path, key⟩] := by
  have hline : ("[" ++ pathForm (path ++ [key]) ++ "]" ++ "\n").toList =
      '[' :: ((pathForm (path ++ [key])).toList ++ [']']) ++ ['\n'] := by
    simp
  rw [hline]
  refine Says.line (Begins.of_ne (by decide)) fun rest => ?_
  rw [← statement?_header hlimit rest]
  simp

theorem says_rowHeader (path : List String) (key : String) (hlimit : path.length + 1 < depthLimit) :
    Says ("[[" ++ pathForm (path ++ [key]) ++ "]]" ++ "\n").toList [.row ⟨path, key⟩] := by
  have hline : ("[[" ++ pathForm (path ++ [key]) ++ "]]" ++ "\n").toList =
      '[' :: ('[' :: (pathForm (path ++ [key])).toList ++ [']', ']']) ++ ['\n'] := by
    simp
  rw [hline]
  refine Says.line (Begins.of_ne (by decide)) fun rest => ?_
  rw [← statement?_rowHeader hlimit rest]
  simp

/-! ## Documents on their lines -/

mutual

/-- Whether the paths of headers have few enough keys, and values after their
keys lie in few enough containers, below so many keys. -/
def fits (keys : Nat) : Document → Bool
  | .table entries => keys < depthLimit && entriesFit keys entries
  | .list items => allFit keys items
  | _ => true

def allFit (keys : Nat) : List Document → Bool
  | [] => true
  | d :: rest => fits keys d && allFit keys rest

def entriesFit (keys : Nat) : List (String × Document) → Bool
  | [] => true
  | (_, d) :: rest =>
    (if hasHeader d then fits (keys + 1) d else d.height < depthLimit) && entriesFit keys rest

end

/-- The lines of a table, up to the tables in it. -/
theorem says_pairLines {keys : Nat} : ∀ {entries : List (String × Document)} {body : String},
    Document.EntriesPlain entries → LayeredEntries entries → entriesFit keys entries = true →
    pairLines entries = some body → Says body.toList (pairStatements entries)
  | [], body, _, _, _, h => by
      cases h
      exact Says.nil
  | (key, d) :: rest, body, hplain, hlayered, hfits, h => by
      rw [Document.EntriesPlain] at hplain
      rw [LayeredEntries] at hlayered
      rw [entriesFit, Bool.and_eq_true] at hfits
      rw [pairLines] at h
      rw [pairStatements]
      by_cases hd : hasHeader d = true
      · rw [if_pos hd] at h ⊢
        exact says_pairLines hplain.2 hlayered.2.2 hfits.2 h
      · rw [if_neg hd] at h ⊢ hfits
        obtain ⟨form, hform, h⟩ := Option.bind_eq_some_iff.mp h
        obtain ⟨more, hmore, h⟩ := Option.bind_eq_some_iff.mp h
        cases h
        have hreads := reads_valueForm d hplain.1 (hlayered.1.inline (Bool.eq_false_iff.mpr hd))
          hform
        rw [String.toList_append]
        exact (says_pair hreads (of_decide_eq_true hfits.1)).append
          (says_pairLines hplain.2 hlayered.2.2 hfits.2 hmore)

/-- What blocks say does not depend on what was written before them. -/
def SayBlocks (bs : List Block) (found : List Statement) : Prop :=
  ∀ started, Says (joinBlocks started bs).toList found

theorem SayBlocks.nil : SayBlocks [] [] :=
  fun _ => Says.nil

theorem joinBlocks_append (bs more : List Block) (started : Bool) :
    ∃ later, joinBlocks started (bs ++ more) = joinBlocks started bs ++ joinBlocks later more := by
  induction bs generalizing started with
  | nil => exact ⟨started, (String.empty_append).symm⟩
  | cons b rest ih =>
      obtain ⟨header, body⟩ := b
      cases header with
      | none =>
          obtain ⟨later, hlater⟩ := ih (started || body ≠ "")
          refine ⟨later, ?_⟩
          simp only [List.cons_append, joinBlocks, hlater, String.append_assoc]
      | some header =>
          obtain ⟨later, hlater⟩ := ih true
          refine ⟨later, ?_⟩
          simp only [List.cons_append, joinBlocks, hlater, String.append_assoc]

theorem SayBlocks.append {bs more : List Block} {found found' : List Statement}
    (h : SayBlocks bs found) (hmore : SayBlocks more found') :
    SayBlocks (bs ++ more) (found ++ found') := by
  intro started
  obtain ⟨later, hlater⟩ := joinBlocks_append bs more started
  rw [hlater, String.toList_append]
  exact (h started).append (hmore later)

/-- A header and the lines under it. -/
theorem SayBlocks.header {header body : String} {s : Statement} {found : List Statement}
    (hheader : Says (header ++ "\n").toList [s]) (hbody : Says body.toList found) :
    SayBlocks [⟨some header, body⟩] (s :: found) := by
  intro started
  have hblank : Says (if started then "\n" else "").toList [] := by
    cases started
    · exact Says.nil
    · exact Says.blank
  have hall := (hblank.append hheader).append hbody
  rw [joinBlocks, joinBlocks, String.append_empty]
  simpa only [String.toList_append, List.append_assoc, List.nil_append, List.cons_append]
    using hall

theorem tableHeader_eq {path : List String} {key : String} {entries : List (String × Document)}
    (h : Placed (.table entries)) :
    tableHeader (path ++ [key]) entries = some ("[" ++ pathForm (path ++ [key]) ++ "]") := by
  rw [tableHeader, if_neg]
  rw [Bool.not_eq_true, Bool.or_eq_false_iff]
  refine ⟨by cases path <;> rfl, ?_⟩
  rcases h with rfl | ⟨p, hp, hvalue⟩
  · rfl
  · rw [Bool.and_eq_false_iff]
    refine Or.inr (List.all_eq_false.mpr ⟨p, hp, ?_⟩)
    rw [hvalue]
    exact Bool.false_ne_true

mutual

/-- The blocks of a document say its statements, under a path that leads to it. -/
theorem say_blocks : ∀ (d : Document) (path : List String) (key : String) (bs : List Block),
    d.IsPlain → Placed d → Layered d → fits (path.length + 1) d = true → hasHeader d = true →
    blocks (path ++ [key]) d = some bs → SayBlocks bs (statementsOf path key d)
  | .table entries => by
      intro path key bs hplain hplaced hlayered hfits _ h
      rw [Document.IsPlain] at hplain
      rw [Layered] at hlayered
      rw [fits, Bool.and_eq_true] at hfits
      rw [blocks] at h
      obtain ⟨body, hbody, h⟩ := Option.bind_eq_some_iff.mp h
      obtain ⟨inner, hinner, h⟩ := Option.bind_eq_some_iff.mp h
      cases h
      rw [tableHeader_eq hplaced, statementsOf]
      have hlines := says_pairLines hplain hlayered.2 hfits.2 hbody
      have hblocks := say_blocksIn entries (path ++ [key]) inner hplain hlayered.2
        (by rw [List.length_append]; exact hfits.2) hinner
      have hheader := says_header path key (of_decide_eq_true hfits.1)
      exact (SayBlocks.header hheader hlines).append hblocks
  | .list items => by
      intro path key bs hplain _ hlayered hfits _ h
      rw [Document.IsPlain] at hplain
      rw [Layered] at hlayered
      rw [fits] at hfits
      rw [blocks] at h
      rw [statementsOf]
      exact say_rowBlocks items path key bs hplain hlayered hfits h
  | .null | .bool _ | .int _ | .float _ | .text _ | .unreadable => by
      intro _ _ _ _ _ _ _ hheader
      cases hheader

theorem say_rowBlocks : ∀ (items : List Document) (path : List String) (key : String)
    (bs : List Block), Document.AllPlain items → LayeredAll items →
    allFit (path.length + 1) items = true → rowBlocks (path ++ [key]) items = some bs →
    SayBlocks bs (rowStatements path key items)
  | [] => by
      intro path key bs _ _ _ h
      rw [rowBlocks] at h
      cases h
      rw [rowStatements]
      exact SayBlocks.nil
  | .table entries :: rest => by
      intro path key bs hplain hlayered hfits h
      rw [Document.AllPlain, Document.IsPlain] at hplain
      rw [LayeredAll, Layered] at hlayered
      rw [allFit, fits, Bool.and_eq_true, Bool.and_eq_true] at hfits
      rw [rowBlocks] at h
      obtain ⟨body, hbody, h⟩ := Option.bind_eq_some_iff.mp h
      obtain ⟨inner, hinner, h⟩ := Option.bind_eq_some_iff.mp h
      obtain ⟨others, hothers, h⟩ := Option.bind_eq_some_iff.mp h
      cases h
      rw [rowStatements]
      have hlines := says_pairLines hplain.1 hlayered.1.2 hfits.1.2 hbody
      have hblocks := say_blocksIn entries (path ++ [key]) inner hplain.1 hlayered.1.2
        (by rw [List.length_append]; exact hfits.1.2) hinner
      have hheader := says_rowHeader path key (of_decide_eq_true hfits.1.1)
      exact ((SayBlocks.header hheader hlines).append hblocks).append
        (say_rowBlocks rest path key others hplain.2 hlayered.2 hfits.2 hothers)
  | .null :: rest | .bool _ :: rest | .int _ :: rest | .float _ :: rest | .text _ :: rest
  | .list _ :: rest | .unreadable :: rest => by
      intro path key bs hplain hlayered hfits h
      rw [Document.AllPlain] at hplain
      rw [LayeredAll] at hlayered
      rw [allFit, Bool.and_eq_true] at hfits
      simp only [rowBlocks] at h
      simp only [rowStatements]
      exact say_rowBlocks rest path key bs hplain.2 hlayered.2 hfits.2 h

theorem say_blocksIn : ∀ (entries : List (String × Document)) (path : List String)
    (bs : List Block), Document.EntriesPlain entries → LayeredEntries entries →
    entriesFit path.length entries = true → blocksIn path entries = some bs →
    SayBlocks bs (statementsIn path entries)
  | [] => by
      intro path bs _ _ _ h
      rw [blocksIn] at h
      cases h
      rw [statementsIn]
      exact SayBlocks.nil
  | (key, d) :: rest => by
      intro path bs hplain hlayered hfits h
      rw [Document.EntriesPlain] at hplain
      rw [LayeredEntries] at hlayered
      rw [entriesFit, Bool.and_eq_true] at hfits
      rw [blocksIn] at h
      rw [statementsIn]
      by_cases hd : hasHeader d = true
      · rw [if_pos hd] at h hfits ⊢
        obtain ⟨first, hfirst, h⟩ := Option.bind_eq_some_iff.mp h
        obtain ⟨others, hothers, h⟩ := Option.bind_eq_some_iff.mp h
        cases h
        exact (say_blocks d path key first hplain.1 hlayered.1 hlayered.2.1 hfits.1 hd hfirst).append
          (say_blocksIn rest path others hplain.2 hlayered.2.2 hfits.2 hothers)
      · rw [if_neg hd] at h ⊢
        obtain ⟨first, hfirst, h⟩ := Option.bind_eq_some_iff.mp h
        cases hfirst
        obtain ⟨others, hothers, h⟩ := Option.bind_eq_some_iff.mp h
        cases h
        exact say_blocksIn rest path others hplain.2 hlayered.2.2 hfits.2 hothers

end

/-! ## Whole texts -/

theorem statements_nil (steps : Nat) : statements steps [] = ([], []) := by
  cases steps <;> rfl

/-- All that a text says, where its lines say it. -/
theorem Says.statements_eq {cs : List Char} {found : List Statement} (h : Says cs found) :
    statements (cs.length + 1) cs = (found, []) := by
  obtain ⟨lines, hlines, htells⟩ := h
  have hall := htells (cs.length + 1 - lines) []
  rw [List.append_nil, statements_nil, List.append_nil,
    Nat.add_sub_cancel' (Nat.le_succ_of_le hlines)] at hall
  exact hall

/-- A text of lines has no byte order mark in front, which is on no line. -/
theorem Says.skipMark_eq {cs : List Char} {found : List Statement} (h : Says cs found) :
    skipMark cs = cs := by
  rw [skipMark.eq_def]
  split
  · have hall := h.statements_eq
    cases hall
  · rfl

theorem write?_eq_some {entries : List (String × Document)} {s : String}
    (h : write? (.table entries) = some s) :
    ∃ body bs, pairLines entries = some body ∧ blocksIn [] entries = some bs
      ∧ s = body ++ joinBlocks (body ≠ "") bs := by
  rw [write?, blocks] at h
  obtain ⟨all, hall, rfl⟩ := Option.map_eq_some_iff.mp h
  obtain ⟨body, hbody, hall⟩ := Option.bind_eq_some_iff.mp hall
  obtain ⟨bs, hbs, hall⟩ := Option.bind_eq_some_iff.mp hall
  cases hall
  exact ⟨body, bs, hbody, hbs, rfl⟩

/-- **A plain document in layers comes back from its text**, with all entries in
their order. -/
theorem read_write {entries : List (String × Document)} {s : String}
    (hplain : (Document.table entries).IsPlain) (hlayered : Layered (.table entries))
    (hfits : fits 0 (.table entries) = true) (h : write? (.table entries) = some s) :
    read s = .ok (.table entries) := by
  obtain ⟨body, bs, hbody, hbs, rfl⟩ := write?_eq_some h
  obtain ⟨r, hbuilds, hentries⟩ := builds_document hlayered
  rw [Document.IsPlain] at hplain
  rw [Layered] at hlayered
  rw [fits, Bool.and_eq_true] at hfits
  have htells := (says_pairLines hplain hlayered.2 hfits.2 hbody).append
    (say_blocksIn entries [] bs hplain hlayered.2 hfits.2 hbs (body ≠ ""))
  rw [← String.toList_append] at htells
  rw [Builds] at hbuilds
  rw [read, htells.skipMark_eq]
  simp only [htells.statements_eq, hbuilds, List.isEmpty_nil, if_true, hentries]

/-! ## Documents that cannot be written -/

section Nulls

open Document

/-- A result of two parts is missing where one of them is. -/
theorem bind_map_eq_none {α β γ : Type} {x : Option α} {y : Option β} {f : α → β → γ} :
    (x.bind fun a => y.bind fun b => some (f a b)) = none ↔ x = none ∨ y = none := by
  cases x <;> cases y <;> simp

mutual

/-- A value without a form has a null in it. -/
theorem valueForm_eq_none : ∀ d : Document, d.IsPlain → (valueForm d = none ↔ d.HasNull)
  | .null => fun _ => by simp only [valueForm, HasNull]
  | .bool _ | .int _ | .text _ => fun _ => by
      simp only [valueForm, HasNull, reduceCtorEq]
  | .float _ | .unreadable => fun hplain => by
      rw [IsPlain] at hplain
      exact hplain.elim
  | .list items => by
      intro hplain
      rw [IsPlain] at hplain
      rw [valueForm, HasNull, Option.map_eq_none_iff]
      exact itemForms_eq_none items hplain
  | .table entries => by
      intro hplain
      rw [IsPlain] at hplain
      rw [valueForm, HasNull, Option.map_eq_none_iff]
      exact pairForms_eq_none entries hplain

theorem itemForms_eq_none : ∀ ds : List Document, AllPlain ds →
    (itemForms ds = none ↔ AnyNull ds)
  | [] => fun _ => by simp only [itemForms, AnyNull, reduceCtorEq]
  | d :: rest => by
      intro hplain
      rw [AllPlain] at hplain
      rw [itemForms, AnyNull, ← valueForm_eq_none d hplain.1, ← itemForms_eq_none rest hplain.2]
      exact bind_map_eq_none

theorem pairForms_eq_none : ∀ entries : List (String × Document), EntriesPlain entries →
    (pairForms entries = none ↔ EntriesNull entries)
  | [] => fun _ => by simp only [pairForms, EntriesNull, reduceCtorEq]
  | (key, d) :: rest => by
      intro hplain
      rw [EntriesPlain] at hplain
      rw [pairForms, EntriesNull, ← valueForm_eq_none d hplain.1,
        ← pairForms_eq_none rest hplain.2]
      exact bind_map_eq_none

end

mutual

theorem blocks_eq_none : ∀ (d : Document) (path : List String), d.IsPlain →
    hasHeader d = true → (blocks path d = none ↔ d.HasNull)
  | .table entries => by
      intro path hplain _
      rw [IsPlain] at hplain
      rw [blocks, HasNull, ← entryBlocks_eq_none entries path hplain]
      exact bind_map_eq_none
  | .list items => by
      intro path hplain hheader
      rw [IsPlain] at hplain
      rw [blocks, HasNull]
      exact rowBlocks_eq_none items path hplain (hasHeader_list.mp hheader).2
  | .null | .bool _ | .int _ | .float _ | .text _ | .unreadable => by
      intro _ _ hheader
      cases hheader

theorem rowBlocks_eq_none : ∀ (items : List Document) (path : List String), AllPlain items →
    (∀ d ∈ items, isTable d = true) → (rowBlocks path items = none ↔ AnyNull items)
  | [] => fun _ _ _ => by simp only [rowBlocks, AnyNull, reduceCtorEq]
  | .table entries :: rest => by
      intro path hplain htables
      rw [AllPlain, IsPlain] at hplain
      rw [rowBlocks, AnyNull, HasNull, ← entryBlocks_eq_none entries path hplain.1,
        ← rowBlocks_eq_none rest path hplain.2 fun d hd => htables d (List.mem_cons_of_mem _ hd)]
      cases pairLines entries <;> cases blocksIn path entries <;> cases rowBlocks path rest <;>
        simp
  | .null :: _ | .bool _ :: _ | .int _ :: _ | .float _ :: _ | .text _ :: _ | .list _ :: _
  | .unreadable :: _ => by
      intro _ _ htables
      exact nomatch htables _ List.mem_cons_self

theorem entryBlocks_eq_none : ∀ (entries : List (String × Document)) (path : List String),
    EntriesPlain entries →
    (pairLines entries = none ∨ blocksIn path entries = none ↔ EntriesNull entries)
  | [] => fun _ _ => by simp only [pairLines, blocksIn, EntriesNull, reduceCtorEq, or_self]
  | (key, d) :: rest => by
      intro path hplain
      rw [EntriesPlain] at hplain
      rw [pairLines, blocksIn, EntriesNull, ← entryBlocks_eq_none rest path hplain.2]
      by_cases hd : hasHeader d = true
      · rw [if_pos hd, if_pos hd, ← blocks_eq_none d (path ++ [key]) hplain.1 hd]
        cases blocks (path ++ [key]) d <;> cases blocksIn path rest <;> simp
      · rw [if_neg hd, if_neg hd, ← valueForm_eq_none d hplain.1]
        cases valueForm d <;> cases pairLines rest <;> cases blocksIn path rest <;> simp

end

/-- **What cannot be written is a null**, wherever it is. -/
theorem write?_eq_none {entries : List (String × Document)}
    (hplain : (Document.table entries).IsPlain) :
    write? (.table entries) = none ↔ (Document.table entries).HasNull := by
  rw [write?, Option.map_eq_none_iff]
  exact blocks_eq_none (.table entries) [] hplain rfl

end Nulls

end NginxConfig.Toml
