import Mathlib.Logic.Relation
import NginxConfig.Directive
import NginxConfig.Proofs.Text.Words

/-!
# The one form of an option

An option is written by three routines that treat emptiness each on its own: the text
of a value leaves out what has no text, the directive of an option asks whether the
value is empty, and the statement of several values leaves out those without a text.
They agree because a value is empty exactly if its text is (`Value.isEmpty_iff`), and
because texts that are joined row by row are joined as one row
(`Value.joinTexts_append`), so of a list only its leaves count, in their order
(`Value.text_eq_joinTexts`).

Whatever is done to a list inside that keeps the leaves with a text therefore keeps its
text. Dissolving inner lists and dropping empty elements does, and leads to these leaves
(`Value.simplest_iff`).
-/

namespace NginxConfig

/-! ## Numbers -/

namespace Decimal

theorem positionalText_ne_empty (wholeSuffix : String) (digits : Nat) (grid : Int) :
    positionalText wholeSuffix digits grid ≠ "" := by
  rw [positionalText]
  split
  · exact fun h => Nat.repr_ne_empty (String.append_eq_empty_iff.mp h).1
  · intro h
    have hpoint := (String.append_eq_empty_iff.mp (String.append_eq_empty_iff.mp h).1).2
    exact absurd hpoint (by decide)

theorem plain_text_ne_empty (x : Float) : plain.text x ≠ "" := by
  rw [Layout.text]
  split
  · decide
  · decide
  · decide
  · exact fun h => positionalText_ne_empty _ _ _ (String.append_eq_empty_iff.mp h).2
  · exact fun h => positionalText_ne_empty _ _ _ (String.append_eq_empty_iff.mp h).2

theorem plain_textExactWhole_ne_empty (x : Float) : plain.textExactWhole x ≠ "" := by
  rw [Layout.textExactWhole]
  split
  · split
    · intro h
      exact absurd (String.append_eq_empty_iff.mp h).2 (by decide)
    · exact plain_text_ne_empty x
  · exact plain_text_ne_empty x

theorem toString_int_ne_empty (n : Int) : toString n ≠ "" := by
  cases n with
  | ofNat m => exact Nat.repr_ne_empty
  | negSucc m => exact fun h => Nat.repr_ne_empty (String.append_eq_empty_iff.mp h).2

end Decimal

namespace Value

/-! ## Joined texts -/

theorem intercalate_eq_empty {ws : List String} (h : ∀ w ∈ ws, w ≠ "") :
    " ".intercalate ws = "" ↔ ws = [] := by
  match ws with
  | [] => simp
  | [w] => simpa using h w List.mem_cons_self
  | w :: u :: rest =>
      rw [String.intercalate_cons_cons, String.append_eq_empty_iff, String.append_eq_empty_iff]
      simp

theorem joinTexts_eq_empty {texts : List String} :
    joinTexts texts = "" ↔ ∀ s ∈ texts, s = "" := by
  have hsolid : ∀ w ∈ texts.filter (· ≠ ""), w ≠ "" := fun w hw =>
    of_decide_eq_true (List.mem_filter.mp hw).2
  rw [joinTexts, intercalate_eq_empty hsolid, List.filter_eq_nil_iff]
  simp

@[simp] theorem joinTexts_singleton (s : String) : joinTexts [s] = s := by
  by_cases hs : s = "" <;> simp [joinTexts, hs]

/-- Two texts with a space between them, which an empty text does not need. -/
def spaced (a b : String) : String :=
  if a = "" then b else if b = "" then a else a ++ " " ++ b

theorem joinTexts_append (texts more : List String) :
    joinTexts (texts ++ more) = spaced (joinTexts texts) (joinTexts more) := by
  have hempty : ∀ texts : List String, joinTexts texts = "" ↔ texts.filter (· ≠ "") = [] :=
    fun texts => by simp [joinTexts_eq_empty, List.filter_eq_nil_iff]
  rw [spaced]
  split
  · next h => rw [joinTexts, List.filter_append, (hempty texts).mp h, List.nil_append, joinTexts]
  · next h =>
      split
      · next h' =>
          rw [joinTexts, List.filter_append, (hempty more).mp h', List.append_nil, joinTexts]
      · next h' =>
          rw [joinTexts, List.filter_append, String.intercalate_append_of_ne_nil
            (mt (hempty texts).mpr h) (mt (hempty more).mpr h'), joinTexts, joinTexts]

/-! ## Empty values -/

mutual

theorem isEmpty_iff : ∀ v : Value, v.isEmpty = true ↔ v.text = ""
  | .bool true | .bool false => by decide
  | .int n => by
      have htext : (Value.int n).text ≠ "" := Decimal.toString_int_ne_empty n.toInt
      simp [isEmpty, htext]
  | .float x => by
      have htext : (Value.float x).text ≠ "" := Decimal.plain_textExactWhole_ne_empty x
      simp [isEmpty, htext]
  | .str s => String.isEmpty_iff
  | .list items => (allEmpty_iff items).trans joinTexts_eq_empty.symm
  | .empty => by decide

theorem allEmpty_iff : ∀ vs : List Value, allEmpty vs = true ↔ ∀ s ∈ texts vs, s = ""
  | [] => by simp [allEmpty, texts]
  | v :: vs => by
      rw [allEmpty, Bool.and_eq_true, isEmpty_iff v, allEmpty_iff vs, texts, List.forall_mem_cons]

end

/-! ## Leaves -/

mutual

/-- The values inside a value that are not lists, from left to right. -/
def leaves : Value → List Value
  | .list items => leavesOfAll items
  | .bool b => [.bool b]
  | .int n => [.int n]
  | .float x => [.float x]
  | .str s => [.str s]
  | .empty => [.empty]

def leavesOfAll : List Value → List Value
  | [] => []
  | v :: vs => v.leaves ++ leavesOfAll vs

end

theorem leavesOfAll_append (vs ws : List Value) :
    leavesOfAll (vs ++ ws) = leavesOfAll vs ++ leavesOfAll ws := by
  induction vs with
  | nil => rfl
  | cons v vs ih => rw [List.cons_append, leavesOfAll, leavesOfAll, ih, List.append_assoc]

mutual

/-- A leaf is no list. -/
theorem ne_list_of_mem_leaves : ∀ {v x : Value}, x ∈ v.leaves → ∀ items, x ≠ .list items
  | .list _, _, h => ne_list_of_mem_leavesOfAll h
  | .bool _, _, h | .int _, _, h | .float _, _, h | .str _, _, h | .empty, _, h => by
      obtain rfl := List.mem_singleton.mp h
      exact fun _ heq => nomatch heq

theorem ne_list_of_mem_leavesOfAll : ∀ {vs : List Value} {x : Value}, x ∈ leavesOfAll vs →
    ∀ items, x ≠ .list items
  | _ :: _, _, h => by
      rw [leavesOfAll, List.mem_append] at h
      rcases h with h | h
      · exact ne_list_of_mem_leaves h
      · exact ne_list_of_mem_leavesOfAll h

end

mutual

theorem text_eq_joinTexts : ∀ v : Value, v.text = joinTexts (v.leaves.map text)
  | .list items => joinTexts_texts items
  | .bool _ | .int _ | .float _ | .str _ | .empty => (joinTexts_singleton _).symm

theorem joinTexts_texts : ∀ vs : List Value,
    joinTexts (texts vs) = joinTexts ((leavesOfAll vs).map text)
  | [] => rfl
  | v :: vs => by
      have hfirst : joinTexts [v.text] = joinTexts (v.leaves.map text) := by
        rw [joinTexts_singleton, text_eq_joinTexts v]
      rw [texts, ← List.singleton_append, joinTexts_append, hfirst, joinTexts_texts vs,
        leavesOfAll, List.map_append, joinTexts_append]

end

/-- The values of a row that have a text. -/
def inked (vs : List Value) : List Value :=
  vs.filter (!·.isEmpty)

theorem inked_append (vs ws : List Value) : inked (vs ++ ws) = inked vs ++ inked ws :=
  List.filter_append vs ws

theorem text_eq_inked (v : Value) : v.text = " ".intercalate ((inked v.leaves).map text) := by
  have hsame : (fun w : Value => decide (w.text ≠ "")) = fun w => !w.isEmpty := funext fun w => by
    rw [Bool.eq_iff_iff, decide_eq_true_iff, ne_eq, ← w.isEmpty_iff, Bool.not_eq_true,
      Bool.not_eq_true']
  rw [v.text_eq_joinTexts, joinTexts, List.filter_map, inked, ← hsame]
  rfl

theorem inked_leaves_eq_nil {v : Value} : inked v.leaves = [] ↔ v.isEmpty = true := by
  have hsolid : ∀ s ∈ (inked v.leaves).map text, s ≠ "" := fun s hs => by
    obtain ⟨w, hw, rfl⟩ := List.mem_map.mp hs
    have hfilled := (List.mem_filter.mp hw).2
    exact mt w.isEmpty_iff.mpr (by simpa using hfilled)
  rw [v.isEmpty_iff, text_eq_inked, intercalate_eq_empty hsolid, List.map_eq_nil_iff]

/-! ## Simpler lists -/

/-- A list is simplified at one place inside: a list in it is dissolved, or an element
without a text is dropped. -/
inductive Simplifies : Value → Value → Prop
  | dissolve (before inner after : List Value) :
      Simplifies (.list (before ++ .list inner :: after)) (.list (before ++ inner ++ after))
  | drop (before : List Value) {v : Value} (h : v.isEmpty = true) (after : List Value) :
      Simplifies (.list (before ++ v :: after)) (.list (before ++ after))
  | inside (before : List Value) {v w : Value} (h : Simplifies v w) (after : List Value) :
      Simplifies (.list (before ++ v :: after)) (.list (before ++ w :: after))

namespace Simplifies

variable {v w : Value}

/-- A step keeps the leaves that have a text, in their order. -/
theorem inked_leaves (h : Simplifies v w) : inked w.leaves = inked v.leaves := by
  induction h with
  | dissolve before inner after =>
      simp only [leaves, leavesOfAll_append, leavesOfAll, List.append_assoc]
  | drop before h after =>
      simp only [leaves, leavesOfAll_append, leavesOfAll, inked_append,
        inked_leaves_eq_nil.mpr h, List.nil_append]
  | inside before h after ih =>
      simp only [leaves, leavesOfAll_append, leavesOfAll, inked_append, ih]

theorem isList (h : Simplifies v w) :
    (∃ items, v = .list items) ∧ ∃ items, w = .list items := by
  cases h <;> exact ⟨⟨_, rfl⟩, ⟨_, rfl⟩⟩

/-- A row of leaves that all have a text is as simple as can be. -/
theorem not_of_leaves {items : List Value} (hleaf : ∀ x ∈ items, ∀ inner, x ≠ .list inner)
    (hinked : ∀ x ∈ items, x.isEmpty = false) : ¬ Simplifies (.list items) w := by
  have hmem : ∀ {before after : List Value} {x : Value},
      Value.list items = .list (before ++ x :: after) → x ∈ items := fun heq => by
    rw [Value.list.inj heq]
    exact List.mem_append_right _ List.mem_cons_self
  intro h
  generalize hv : Value.list items = v at h
  cases h with
  | dissolve before inner after => exact hleaf _ (hmem hv) inner rfl
  | drop before hempty after =>
      rw [hinked _ (hmem hv)] at hempty
      cases hempty
  | inside before hstep after =>
      obtain ⟨inner, heq⟩ := hstep.isList.1
      exact hleaf _ (hmem hv) inner heq

end Simplifies

theorem simplifies_leaf {v : Value} (h : v.leaves = [v]) (before after : List Value) :
    Relation.ReflTransGen Simplifies (.list (before ++ v :: after))
      (.list (before ++ inked v.leaves ++ after)) := by
  rw [h, inked]
  cases hv : v.isEmpty with
  | true =>
      rw [List.filter_cons_of_neg (by simp [hv]), List.filter_nil, List.append_nil]
      exact .single (.drop before hv after)
  | false =>
      rw [List.filter_cons_of_pos (by simp [hv]), List.filter_nil, List.append_assoc,
        List.singleton_append]

mutual

/-- Step by step, an element gives way to its leaves. -/
theorem simplifies_leaves : ∀ (v : Value) (before after : List Value),
    Relation.ReflTransGen Simplifies (.list (before ++ v :: after))
      (.list (before ++ inked v.leaves ++ after))
  | .list items, before, after =>
      .head (.dissolve before items after) (simplifies_leavesOfAll items before after)
  | .bool _, before, after | .int _, before, after | .float _, before, after
  | .str _, before, after | .empty, before, after => simplifies_leaf rfl before after

theorem simplifies_leavesOfAll : ∀ (vs before after : List Value),
    Relation.ReflTransGen Simplifies (.list (before ++ vs ++ after))
      (.list (before ++ inked (leavesOfAll vs) ++ after))
  | [], before, after => .refl
  | v :: vs, before, after => by
      have hfirst := simplifies_leaves v before (vs ++ after)
      have hrest := simplifies_leavesOfAll vs (before ++ inked v.leaves) after
      rw [leavesOfAll, inked, List.filter_append]
      simp only [inked, List.append_assoc, List.cons_append] at hfirst hrest ⊢
      exact hfirst.trans hrest

end

theorem simplifies_inked (items : List Value) :
    Relation.ReflTransGen Simplifies (.list items) (.list (inked (leavesOfAll items))) := by
  have hall := simplifies_leavesOfAll items [] []
  rw [List.nil_append, List.append_nil, List.nil_append, List.append_nil] at hall
  exact hall

theorem inked_leaves_of_run {v w : Value} (h : Relation.ReflTransGen Simplifies v w) :
    inked w.leaves = inked v.leaves := by
  induction h with
  | refl => rfl
  | tail _ hstep ih => rw [hstep.inked_leaves, ih]

theorem isList_of_run {items : List Value} {w : Value}
    (h : Relation.ReflTransGen Simplifies (.list items) w) : ∃ items', w = .list items' := by
  rcases Relation.ReflTransGen.cases_tail h with rfl | ⟨u, -, hstep⟩
  · exact ⟨items, rfl⟩
  · exact hstep.isList.2

/-- A list has one simplest form: its leaves that have a text. -/
theorem simplest_iff {items : List Value} {w : Value} :
    (Relation.ReflTransGen Simplifies (.list items) w ∧ ∀ u, ¬ Simplifies w u) ↔
      w = .list (inked (leavesOfAll items)) := by
  constructor
  · rintro ⟨hrun, hsimplest⟩
    obtain ⟨items', rfl⟩ := isList_of_run hrun
    have hsame : inked (leavesOfAll items') = inked (leavesOfAll items) := inked_leaves_of_run hrun
    rcases Relation.ReflTransGen.cases_head (simplifies_inked items') with heq | ⟨u, hstep, -⟩
    · rw [heq, hsame]
    · exact absurd hstep (hsimplest u)
  · rintro rfl
    refine ⟨simplifies_inked items, fun u => Simplifies.not_of_leaves (fun x hx => ?_) ?_⟩
    · exact ne_list_of_mem_leavesOfAll (List.mem_filter.mp hx).1
    · exact fun x hx => by simpa using (List.mem_filter.mp hx).2

end Value

/-! ## Statements -/

namespace Directive

theorem join_eq_intercalate : ∀ {ws : List String}, ws ≠ [] →
    String.join (ws.map (" " ++ ·)) = " " ++ " ".intercalate ws
  | [w], _ => by simp
  | w :: u :: rest, _ => by
      rw [List.map_cons, String.join_cons, join_eq_intercalate (List.cons_ne_nil u rest),
        String.intercalate_cons_cons, String.append_assoc, String.append_assoc]

/-- Several values are written one after the other, each after a space. -/
theorem statement_multi (name : String) (values : List String) :
    (multi name values).statement =
      name ++ String.join ((values.filter (· ≠ "")).map (" " ++ ·)) ++ ";" := by
  rw [statement]
  split
  · next h =>
      rw [h, List.map_nil, String.join_nil, String.append_empty]
  · next h => rw [join_eq_intercalate h, ← String.append_assoc]

/-- The text of a value in its statement. -/
def written (text : String) : String :=
  if text = "" then "" else " " ++ text

theorem statement_multi_eq_written (name : String) (values : List String) :
    (multi name values).statement = name ++ written (Value.joinTexts values) ++ ";" := by
  rw [statement_multi, written]
  by_cases h : values.filter (· ≠ "") = []
  · rw [Value.joinTexts, h, List.map_nil, String.join_nil, String.intercalate_nil, if_pos rfl]
  · have hjoin : Value.joinTexts values ≠ "" := fun hempty =>
      h (List.filter_eq_nil_iff.mpr fun s hs => by simp [Value.joinTexts_eq_empty.mp hempty s hs])
    rw [join_eq_intercalate h, if_neg hjoin, Value.joinTexts]

variable {name : String}

/-- A text with blanks stands for its words. -/
theorem statement_ofOption_of_hasBlank {s : String} (h : Text.hasBlank s = true) :
    (ofOption name (.str s)).statement =
      name ++ String.join ((Text.words s).map (" " ++ ·)) ++ ";" := by
  have hne : s ≠ "" := by
    rintro rfl
    cases h
  have hempty : (Value.str s).isEmpty = false := by simpa [Value.isEmpty] using hne
  have hwords : (Text.words s).filter (· ≠ "") = Text.words s :=
    List.filter_eq_self.mpr fun w hw => decide_eq_true (Text.ne_empty_of_mem_words hw)
  rw [ofOption, hempty]
  simp only [Bool.false_eq_true, if_false, h, if_true]
  rw [statement_multi, hwords]

/-- Any other value stands for its text. -/
theorem statement_ofOption {v : Value} (h : ∀ s, v = .str s → Text.hasBlank s = false) :
    (ofOption name v).statement = name ++ written v.text ++ ";" := by
  cases hv : v.isEmpty with
  | true =>
      unfold ofOption
      rw [if_pos hv, statement, written, if_pos (v.isEmpty_iff.mp hv), String.append_empty]
  | false =>
      have hfilled : ¬ v.isEmpty = true := by simp [hv]
      have hsingle : (single name v.text).statement = name ++ written v.text ++ ";" := by
        rw [statement, written, if_neg (mt v.isEmpty_iff.mpr hfilled), ← String.append_assoc]
      cases v with
      | list items =>
          rw [ofOption, if_neg hfilled, ofValues, statement_multi_eq_written, Value.text,
            Value.texts_eq_map]
      | str s =>
          rw [ofOption, if_neg hfilled]
          simp only [h s rfl, Bool.false_eq_true, if_false]
          exact hsingle
      | empty => cases hv
      | bool b => exact hsingle
      | int n => exact hsingle
      | float x => exact hsingle

end Directive

/-- **An option has one form.** A text with blanks in it is written as its words, each
after a space; any other value as its text after a space, if there is a text. A value is
empty exactly if it has no text, and the text of a value is that of its leaves which have
one, with single spaces between. So it makes no difference to a list if lists inside it
are dissolved or empty elements dropped, wherever they are; and whoever goes on with that
until nothing is left to do has these leaves. -/
theorem options_have_one_form (name : String) (v : Value) :
    (∀ s, v = .str s → Text.hasBlank s = true →
        (Directive.ofOption name v).statement =
          name ++ String.join ((Text.words s).map (" " ++ ·)) ++ ";")
      ∧ (∀ s, Text.words s =
          ((s.toList.splitOnP Text.isBlank).filter (· ≠ [])).map String.ofList)
      ∧ ((∀ s, v = .str s → Text.hasBlank s = false) →
          (Directive.ofOption name v).statement =
            name ++ (if v.text = "" then "" else " " ++ v.text) ++ ";")
      ∧ (v.isEmpty = true ↔ v.text = "")
      ∧ v.text = " ".intercalate ((v.leaves.map Value.text).filter (· ≠ ""))
      ∧ (∀ w, Relation.ReflTransGen Value.Simplifies v w → w.text = v.text
          ∧ (Directive.ofOption name w).statement = (Directive.ofOption name v).statement)
      ∧ ∀ items, v = .list items → ∀ w,
          (Relation.ReflTransGen Value.Simplifies v w ∧ ∀ u, ¬ w.Simplifies u) ↔
            w = .list (v.leaves.filter (!·.isEmpty)) := by
  refine ⟨?_, Text.words_eq_splitOnP, Directive.statement_ofOption, v.isEmpty_iff,
    v.text_eq_joinTexts, fun w h => ?_, ?_⟩
  · rintro s rfl hblank
    exact Directive.statement_ofOption_of_hasBlank hblank
  · have htext : w.text = v.text := by
      rw [w.text_eq_inked, Value.inked_leaves_of_run h, ← v.text_eq_inked]
    have hlist : ∀ items : List Value, (Directive.ofOption name (.list items)).statement =
        name ++ Directive.written (Value.list items).text ++ ";" := fun _ =>
      Directive.statement_ofOption fun _ h => nomatch h
    refine ⟨htext, ?_⟩
    rcases Relation.ReflTransGen.cases_head h with rfl | ⟨u, hstep, -⟩
    · rfl
    · obtain ⟨items, rfl⟩ := hstep.isList.1
      obtain ⟨items', rfl⟩ := Value.isList_of_run h
      rw [hlist, hlist, htext]
  · rintro items rfl w
    exact Value.simplest_iff

/-- What has no text leaves no space either. -/
example :
    let nested : Value := .list [.list [.empty], .list [.str "a", .str "", .list [.str "b c"]]]
    (Directive.ofOption "index" nested).statement = "index a b c;" := by
  decide

end NginxConfig
