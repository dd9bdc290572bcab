import NginxConfig.Text.Blank

/-!
# Words

A text is cut into words character by character, with a look at the character that comes
next. The words are the same as those that are cut out in one go, between blank characters
(`wordsOf_eq_splitOnP`).
-/

namespace NginxConfig.Text

/-- What stands before the first blank character is empty unless a word starts there. -/
theorem exists_splitOnP_eq_cons (cs : List Char) :
    ∃ first rest, cs.splitOnP isBlank = first :: rest ∧ (first = [] ↔ startsWord cs = false) := by
  cases cs with
  | nil => exact ⟨[], [], rfl, by simp [startsWord]⟩
  | cons c cs =>
      rw [List.splitOnP_cons_eq_if_modifyHead, startsWord]
      cases hc : isBlank c with
      | true => exact ⟨[], _, if_pos rfl, by simp⟩
      | false =>
          obtain ⟨first, rest, hsplit⟩ :=
            List.exists_cons_of_ne_nil (List.splitOnP_ne_nil isBlank cs)
          exact ⟨c :: first, rest, by rw [hsplit]; rfl, by simp⟩

/-- The words are what stands between blank characters, where there is anything. -/
theorem wordsOf_eq_splitOnP : ∀ cs : List Char,
    wordsOf cs = (cs.splitOnP isBlank).filter (· ≠ [])
  | [] => rfl
  | c :: cs => by
      have ih := wordsOf_eq_splitOnP cs
      obtain ⟨first, rest, hsplit, hfirst⟩ := exists_splitOnP_eq_cons cs
      rw [hsplit] at ih
      rw [wordsOf, List.splitOnP_cons_eq_if_modifyHead, hsplit, List.modifyHead_cons]
      split
      · exact ih.trans (List.filter_cons_of_neg (by simp)).symm
      · rw [List.filter_cons_of_pos (by simp)]
        by_cases hempty : first = []
        · subst hempty
          rw [hfirst.mp rfl, if_neg Bool.false_ne_true, ih, List.filter_cons_of_neg (by simp)]
        · have hstarts : startsWord cs = true := by simpa using mt hfirst.mpr hempty
          rw [List.filter_cons_of_pos (by simpa using hempty)] at ih
          rw [hstarts, if_pos rfl, ih]

/-- A word at the start of a text, up to the first blank. -/
theorem wordsOf_append_blank {b : Char} (hb : isBlank b = true) (rest : List Char) {w : List Char}
    (hne : w ≠ []) (hw : w.all (!isBlank ·) = true) :
    wordsOf (w ++ b :: rest) = w :: wordsOf rest := by
  have hsolid : ∀ c ∈ w, isBlank c = false := fun c hc => by simpa using List.all_eq_true.mp hw c hc
  rw [wordsOf_eq_splitOnP, List.splitOnP_append_cons_of_forall_mem hsolid b hb,
    List.filter_cons_of_pos (by simpa using hne), ← wordsOf_eq_splitOnP]

theorem words_eq_splitOnP (s : String) :
    words s = ((s.toList.splitOnP isBlank).filter (· ≠ [])).map String.ofList := by
  rw [words, wordsOf_eq_splitOnP]

theorem ne_empty_of_mem_words {s w : String} (h : w ∈ words s) : w ≠ "" := by
  obtain ⟨cs, hcs, rfl⟩ := List.mem_map.mp h
  intro hempty
  have hnil : cs = [] := by
    rw [← String.toList_ofList (l := cs), hempty]
    rfl
  exact (wordsOf_solid s.toList cs hcs).1 hnil

end NginxConfig.Text
