/-!
# Blank characters and words

A configuration value is cut into words at blank characters, and the first
word of a block header decides what may stand inside the block.  Blank means
the Unicode property `White_Space`, which is wider than the five characters
of `Char.isWhitespace`.

The functions work on `List Char`, where the recursion is on the data.
-/

namespace NginxConfig.Text

/-- The characters with the Unicode property `White_Space`. -/
def isBlank (c : Char) : Bool :=
  let n := c.toNat
  (0x9 ≤ n && n ≤ 0xD) || n == 0x20 || n == 0x85 || n == 0xA0 || n == 0x1680 ||
    (0x2000 ≤ n && n ≤ 0x200A) || n == 0x2028 || n == 0x2029 || n == 0x202F ||
    n == 0x205F || n == 0x3000

/-- Whether a text goes on with a character that is not blank. -/
def startsWord : List Char → Bool
  | [] => false
  | c :: _ => !isBlank c

/-- The maximal runs of characters that are not blank, in order. -/
def wordsOf : List Char → List (List Char)
  | [] => []
  | c :: cs =>
    if isBlank c then wordsOf cs
    else if startsWord cs then
      match wordsOf cs with
      | [] => [[c]]
      | w :: ws => (c :: w) :: ws
    else [c] :: wordsOf cs

def words (s : String) : List String :=
  (wordsOf s.toList).map String.ofList

def hasBlank (s : String) : Bool :=
  s.toList.any isBlank

/-- Nothing but blank characters, or nothing at all. -/
def allBlank (s : String) : Bool :=
  s.toList.all isBlank

def dropLeadingBlank (s : String) : String :=
  String.ofList (s.toList.dropWhile isBlank)

/-! ## What the words are made of -/

/-- No word is empty and none holds a blank character. -/
theorem wordsOf_solid (cs : List Char) :
    ∀ w ∈ wordsOf cs, w ≠ [] ∧ ∀ c ∈ w, isBlank c = false := by
  induction cs with
  | nil => simp [wordsOf]
  | cons c cs ih =>
    intro w hw
    unfold wordsOf at hw
    split at hw
    · exact ih w hw
    · next hc =>
      have hc : isBlank c = false := by simpa using hc
      split at hw
      · split at hw
        · simp only [List.mem_singleton] at hw
          subst hw
          simp [hc]
        · next v vs hv =>
          rcases List.mem_cons.mp hw with rfl | hw
          · refine ⟨by simp, fun d hd => ?_⟩
            rcases List.mem_cons.mp hd with rfl | hd
            · exact hc
            · exact (ih v (by simp [hv])).2 d hd
          · exact ih w (by simp [hv, hw])
      · rcases List.mem_cons.mp hw with rfl | hw
        · simp [hc]
        · exact ih w hw

/-- The words hold every character that is not blank, in order. -/
theorem flatten_wordsOf (cs : List Char) :
    (wordsOf cs).flatten = cs.filter (!isBlank ·) := by
  induction cs with
  | nil => simp [wordsOf]
  | cons c cs ih =>
    unfold wordsOf
    split
    · next hc => simp [hc, ih]
    · next hc =>
      split
      · split
        · next hw => simp_all
        · next hw => simp_all
      · simp_all

end NginxConfig.Text
