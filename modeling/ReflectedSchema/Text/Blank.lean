import ReflectedSchema.Text.Range

/-!
# Blank characters

The blanks are the Unicode white space together with the four information separators.  Trimming,
splitting into words and recognising a fenced document all use this one set.
-/

namespace ReflectedSchema.Text

/-- The blanks, as closed intervals of code points in increasing order. -/
def blanks : List (Nat × Nat) :=
  [(0x9, 0xD), (0x1C, 0x20), (0x85, 0x85), (0xA0, 0xA0), (0x1680, 0x1680), (0x2000, 0x200A),
   (0x2028, 0x2029), (0x202F, 0x202F), (0x205F, 0x205F), (0x3000, 0x3000)]

/-- Whether a character is a blank. -/
def isBlank (c : Char) : Bool :=
  inRanges blanks c.toNat

/-- The characters without the blanks at the end. -/
def trimEnd (cs : List Char) : List Char :=
  (cs.reverse.dropWhile isBlank).reverse

/-- The characters without the blanks at either end. -/
def trim (cs : List Char) : List Char :=
  trimEnd (cs.dropWhile isBlank)

/-- A text without the blanks at either end. -/
def trimText (s : String) : String :=
  String.ofList (trim s.toList)

/-- The words of a text after an unfinished word, which is kept in reverse. -/
def wordsFrom (started : List Char) : List Char → List (List Char)
  | [] => if started.isEmpty then [] else [started.reverse]
  | c :: rest =>
    if isBlank c then
      if started.isEmpty then wordsFrom [] rest else started.reverse :: wordsFrom [] rest
    else wordsFrom (c :: started) rest

/-- The longest runs of characters that are not blank, in order. -/
def words (cs : List Char) : List (List Char) :=
  wordsFrom [] cs

/-- A word that was begun has a character and no blank, and so has every word after it. -/
theorem wordsFrom_sound {started cs : List Char} (h : ∀ c ∈ started, isBlank c = false) :
    ∀ word ∈ wordsFrom started cs, word ≠ [] ∧ ∀ c ∈ word, isBlank c = false := by
  induction cs generalizing started with
  | nil =>
    intro word hw
    cases started with
    | nil => simp [wordsFrom] at hw
    | cons c rest =>
      simp only [wordsFrom, List.isEmpty_cons, Bool.false_eq_true, if_false, List.mem_singleton] at hw
      subst hw
      exact ⟨by simp, fun d hd => h d (List.mem_reverse.mp hd)⟩
  | cons c cs ih =>
    intro word hw
    rw [wordsFrom] at hw
    by_cases hc : isBlank c = true
    · rw [if_pos hc] at hw
      cases started with
      | nil => exact ih (by simp) word hw
      | cons d rest =>
        rcases List.mem_cons.mp hw with rfl | hw
        · exact ⟨by simp, fun e he => h e (List.mem_reverse.mp he)⟩
        · exact ih (by simp) word hw
    · rw [if_neg hc] at hw
      refine ih (fun d hd => ?_) word hw
      rcases List.mem_cons.mp hd with rfl | hd
      · exact Bool.eq_false_iff.mpr hc
      · exact h d hd

/-- Words are not empty and hold no blank. -/
theorem words_sound {cs word : List Char} (h : word ∈ words cs) :
    word ≠ [] ∧ ∀ c ∈ word, isBlank c = false :=
  wordsFrom_sound (by simp) word h

end ReflectedSchema.Text
