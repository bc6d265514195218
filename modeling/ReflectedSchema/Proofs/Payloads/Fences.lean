import Mathlib
import ReflectedSchema.Payload

/-!
# Fences around documents

A fence is recognised by a pattern: three backticks, a word of letters, blanks, a line break, the document,
blanks and three backticks.  Letters are not kept from the document and blanks stand in three places, so
most fenced texts match in several ways.  Among these the pattern prefers a longer word, then more blanks
behind it, then a line break to none, and last a shorter document.  `fenced?_eq_some_iff` says that the
characters inside a fence are the document of the way that is preferred.

It follows that the document of a fence is what stands between its lines without the blanks around it,
whatever backticks and blanks are inside, so a text is read in a fence as it is read without.
-/

namespace ReflectedSchema

/-! ## Blanks at the ends -/

namespace Text

variable {cs before after : List Char}

/-- The longest run at the front is as long as any run there. -/
theorem length_le_takeWhile {p : Char → Bool} {run rest : List Char} (h : ∀ c ∈ run, p c = true)
    (split : run ++ rest = cs) : run.length ≤ (cs.takeWhile p).length := by
  rw [← split, List.takeWhile_append_of_pos h, List.length_append]
  exact Nat.le_add_right _ _

/-- Blanks at the end are trimmed. -/
theorem trimEnd_append_of_blank (h : ∀ c ∈ after, isBlank c = true) :
    trimEnd (cs ++ after) = trimEnd cs := by
  have reversed : ∀ c ∈ after.reverse, isBlank c = true := fun c hc => h c (List.mem_reverse.mp hc)
  rw [trimEnd, List.reverse_append, List.dropWhile_append_of_pos reversed, trimEnd]

/-- Characters that end in no blank are trimmed already. -/
theorem trimEnd_concat {c : Char} (h : isBlank c = false) : trimEnd (cs ++ [c]) = cs ++ [c] := by
  rw [trimEnd, List.reverse_append, List.reverse_singleton, List.singleton_append,
    List.dropWhile_cons_of_neg (by simp [h]), ← List.singleton_append, List.reverse_append,
    List.reverse_reverse, List.reverse_singleton]

/-- Blanks around characters are trimmed away. -/
theorem trim_append (hb : ∀ c ∈ before, isBlank c = true) (ha : ∀ c ∈ after, isBlank c = true) :
    trim (before ++ (cs ++ after)) = trim cs := by
  rw [trim, List.dropWhile_append_of_pos hb, trim, List.dropWhile_append]
  split
  · rename_i blank
    rw [List.isEmpty_iff.mp blank, List.dropWhile_eq_nil_iff.mpr ha]
  · exact trimEnd_append_of_blank ha

/-- What trimming leaves, and the blanks that it takes from the end. -/
theorem exists_trimEnd_append (cs : List Char) :
    ∃ after, cs = trimEnd cs ++ after ∧ ∀ c ∈ after, isBlank c = true := by
  refine ⟨(cs.reverse.takeWhile isBlank).reverse, ?_, fun c hc => ?_⟩
  · rw [trimEnd, ← List.reverse_append, List.takeWhile_append_dropWhile, List.reverse_reverse]
  · exact List.mem_takeWhile_imp (List.mem_reverse.mp hc)

/-- What was trimmed stays as it is when it is trimmed again. -/
@[simp] theorem trim_trim (cs : List Char) : trim (trim cs) = trim cs := by
  obtain ⟨after, split, blank⟩ := exists_trimEnd_append (cs.dropWhile isBlank)
  have whole : cs = cs.takeWhile isBlank ++ (trim cs ++ after) := by
    rw [trim, ← split, List.takeWhile_append_dropWhile]
  have same : trim (cs.takeWhile isBlank ++ (trim cs ++ after)) = trim (trim cs) :=
    trim_append (fun _ => List.mem_takeWhile_imp) blank
  rw [← whole] at same
  exact same.symm

/-- No way to take blanks from the end leaves fewer characters than trimming does. -/
theorem length_trimEnd_le (h : ∀ c ∈ after, isBlank c = true) :
    (trimEnd (cs ++ after)).length ≤ cs.length := by
  rw [trimEnd_append_of_blank h, trimEnd, List.length_reverse]
  exact (List.dropWhile_suffix _).length_le.trans_eq List.length_reverse

end Text

namespace Payload

open Text

/-! ## The pattern of a fence -/

/-- Three backticks. -/
def ticks : List Char := ['`', '`', '`']

/-- The characters that each part of the pattern takes between the backticks. -/
structure Way where
  word : List Char
  before : List Char
  lineBreak : List Char
  document : List Char
  after : List Char

namespace Way

/-- The characters of a way. -/
def chars (w : Way) : List Char :=
  w.word ++ (w.before ++ (w.lineBreak ++ (w.document ++ w.after)))

/-- A way to match characters between backticks. -/
structure Matches (w : Way) (inner : List Char) : Prop where
  chars : w.chars = inner
  word : ∀ c ∈ w.word, c.isAlpha = true
  before : ∀ c ∈ w.before, isBlank c = true
  lineBreak : w.lineBreak = [] ∨ w.lineBreak = ['\n']
  after : ∀ c ∈ w.after, isBlank c = true

/-- The way to match characters that is preferred to all others. -/
structure Preferred (w : Way) (inner : List Char) : Prop extends w.Matches inner where
  longestWord : ∀ v : Way, v.Matches inner → v.word.length ≤ w.word.length
  mostBlanks : ∀ v : Way, v.Matches inner → v.word = w.word → v.before.length ≤ w.before.length
  lineBreakFirst : ∀ v : Way, v.Matches inner → v.word = w.word → v.before = w.before →
    v.lineBreak.length ≤ w.lineBreak.length
  shortestDocument : ∀ v : Way, v.Matches inner → v.word = w.word → v.before = w.before →
    v.lineBreak = w.lineBreak → w.document.length ≤ v.document.length

variable {v w : Way} {inner : List Char}

/-- There is only one document that is preferred. -/
theorem Preferred.document_eq (hv : v.Preferred inner) (hw : w.Preferred inner) :
    v.document = w.document := by
  have same : v.chars = w.chars := hv.chars.trans hw.chars.symm
  obtain ⟨word, same⟩ := List.append_inj same
    (le_antisymm (hw.longestWord v hv.toMatches) (hv.longestWord w hw.toMatches))
  obtain ⟨before, same⟩ := List.append_inj same
    (le_antisymm (hw.mostBlanks v hv.toMatches word) (hv.mostBlanks w hw.toMatches word.symm))
  obtain ⟨lineBreak, same⟩ := List.append_inj same
    (le_antisymm (hw.lineBreakFirst v hv.toMatches word before)
      (hv.lineBreakFirst w hw.toMatches word.symm before.symm))
  exact (List.append_inj same
    (le_antisymm (hv.shortestDocument w hw.toMatches word.symm before.symm lineBreak.symm)
      (hw.shortestDocument v hv.toMatches word before lineBreak))).1

/-- The word that is preferred is all letters at the front, the blanks are all that follow, so that there
is no line break left to take, and the document ends before the blanks at the end. -/
theorem exists_preferred (inner : List Char) : ∃ w : Way, w.Preferred inner ∧
    w.document = trimEnd ((inner.dropWhile Char.isAlpha).dropWhile isBlank) := by
  obtain ⟨after, document, blank⟩ :=
    exists_trimEnd_append ((inner.dropWhile Char.isAlpha).dropWhile isBlank)
  let w : Way := {
    word := inner.takeWhile Char.isAlpha
    before := (inner.dropWhile Char.isAlpha).takeWhile isBlank
    lineBreak := []
    document := trimEnd ((inner.dropWhile Char.isAlpha).dropWhile isBlank)
    after }
  have behindBlanks : w.document ++ w.after = (inner.dropWhile Char.isAlpha).dropWhile isBlank :=
    document.symm
  have behindWord : w.before ++ (w.lineBreak ++ (w.document ++ w.after)) =
      inner.dropWhile Char.isAlpha := by
    rw [List.nil_append, behindBlanks, List.takeWhile_append_dropWhile]
  have chars : w.chars = inner := by
    rw [Way.chars, behindWord, List.takeWhile_append_dropWhile]
  have isWay : w.Matches inner := ⟨chars, fun _ => List.mem_takeWhile_imp,
    fun _ => List.mem_takeWhile_imp, .inl rfl, blank⟩
  -- What another way takes behind the word, if it takes the same word.
  have restOf {v : Way} (hv : v.Matches inner) (word : v.word = w.word) :
      v.before ++ (v.lineBreak ++ (v.document ++ v.after)) = inner.dropWhile Char.isAlpha := by
    have same := hv.chars.trans chars.symm
    rw [Way.chars, Way.chars, word] at same
    exact (List.append_cancel_left same).trans behindWord
  have noLineBreak {v : Way} (hv : v.Matches inner) (word : v.word = w.word)
      (before : v.before = w.before) : v.lineBreak = [] := by
    have rest := restOf hv word
    rw [← behindWord, before] at rest
    have rest := (List.append_cancel_left rest).trans behindBlanks
    refine hv.lineBreak.resolve_right fun taken => ?_
    have head := List.head?_dropWhile_not isBlank (inner.dropWhile Char.isAlpha)
    rw [← rest, taken] at head
    have kept : isBlank '\n' = false := head
    exact absurd kept (by decide)
  refine ⟨w, ⟨isWay, fun v hv => ?_, fun v hv word => ?_, fun v hv word before => ?_,
    fun v hv word before _ => ?_⟩, rfl⟩
  · exact length_le_takeWhile hv.word hv.chars
  · exact length_le_takeWhile hv.before (restOf hv word)
  · rw [noLineBreak hv word before]
  · have rest := restOf hv word
    rw [← behindWord, before, noLineBreak hv word before] at rest
    have rest := (List.append_cancel_left rest).trans behindBlanks
    rw [List.nil_append] at rest
    exact (congrArg (fun cs => (trimEnd cs).length) rest).ge.trans (length_trimEnd_le hv.after)

end Way

/-- What stands between the ticks of a fence: everything behind the word and the blanks, without the blanks
at the end. -/
theorem fenced?_ticks (inner : List Char) : fenced? (ticks ++ (inner ++ ticks)) =
    some (trimEnd ((inner.dropWhile Char.isAlpha).dropWhile isBlank)) := by
  have reversed : (inner ++ ticks).reverse = '`' :: '`' :: '`' :: inner.reverse := by
    rw [List.reverse_append]
    rfl
  simp only [ticks, List.cons_append, List.nil_append, fenced?] at reversed ⊢
  rw [reversed]
  simp

/-- A fence has ticks at both ends, which do not overlap. -/
theorem exists_of_fenced? {cs document : List Char} (h : fenced? cs = some document) :
    ∃ inner, cs = ticks ++ (inner ++ ticks) := by
  unfold fenced? at h
  split at h
  · rename_i rest
    split at h
    · rename_i body reversed
      refine ⟨body.reverse, ?_⟩
      rw [List.reverse_eq_iff] at reversed
      rw [reversed]
      simp [ticks]
    · cases h
  · cases h

/-- **The characters inside a fence are the document of the way that the pattern prefers**, among all ways
to match what stands between ticks. -/
theorem fenced?_eq_some_iff {cs document : List Char} : fenced? cs = some document ↔
    ∃ inner, cs = ticks ++ (inner ++ ticks) ∧
      ∃ w : Way, w.Preferred inner ∧ w.document = document := by
  constructor
  · intro h
    obtain ⟨inner, rfl⟩ := exists_of_fenced? h
    obtain ⟨w, preferred, found⟩ := Way.exists_preferred inner
    rw [fenced?_ticks] at h
    exact ⟨inner, rfl, w, preferred, found.trans (Option.some.inj h)⟩
  · rintro ⟨inner, rfl, w, preferred, rfl⟩
    obtain ⟨v, other, found⟩ := Way.exists_preferred inner
    rw [fenced?_ticks, ← found, other.document_eq preferred]

/-! ## Texts in a fence -/

/-- Characters in a fence, with blanks around it. -/
def inFence (before word cs after : List Char) : List Char :=
  before ++ ((ticks ++ ((word ++ '\n' :: (cs ++ ['\n'])) ++ ticks)) ++ after)

variable {before word cs after : List Char}

/-- Nothing is trimmed between ticks. -/
theorem trim_ticks (inner : List Char) :
    trim (ticks ++ (inner ++ ticks)) = ticks ++ (inner ++ ticks) := by
  have tick : isBlank '`' = false := by decide
  have last : ticks ++ (inner ++ ticks) = (ticks ++ (inner ++ ['`', '`'])) ++ ['`'] := by simp [ticks]
  have first : (ticks ++ (inner ++ ticks)).dropWhile isBlank = ticks ++ (inner ++ ticks) :=
    List.dropWhile_cons_of_neg (by simp [tick])
  rw [trim, first, last, trimEnd_concat tick]

/-- **What is unwrapped from a fence** is trimmed, and no more. -/
theorem unwrapped_inFence (hb : ∀ c ∈ before, isBlank c = true) (hw : ∀ c ∈ word, c.isAlpha = true)
    (ha : ∀ c ∈ after, isBlank c = true) : unwrapped (inFence before word cs after) = trim cs := by
  have outside : trim (inFence before word cs after) =
      ticks ++ ((word ++ '\n' :: (cs ++ ['\n'])) ++ ticks) := by
    rw [inFence, trim_append hb ha, trim_ticks]
  have behindWord : (word ++ '\n' :: (cs ++ ['\n'])).dropWhile Char.isAlpha = '\n' :: (cs ++ ['\n']) := by
    rw [List.dropWhile_append_of_pos hw, List.dropWhile_cons_of_neg (by decide)]
  have lineBreak : ∀ c ∈ ['\n'], isBlank c = true := List.forall_mem_singleton.mpr (by decide)
  unfold unwrapped
  dsimp only
  rw [outside, fenced?_ticks, behindWord, Option.getD_some]
  show trim (['\n'] ++ (cs ++ ['\n'])) = trim cs
  exact trim_append lineBreak lineBreak

/-- What does not begin with ticks is unwrapped by trimming. -/
theorem unwrapped_of_not_ticks (h : ¬ ticks <+: trim cs) : unwrapped cs = trim cs := by
  have bare : fenced? (trim cs) = none := by
    rw [Option.eq_none_iff_forall_ne_some]
    intro document hf
    obtain ⟨inner, hi⟩ := exists_of_fenced? hf
    exact h (hi ▸ List.prefix_append ticks _)
  rw [unwrapped, bare, Option.getD_none]

/-- Blanks around a text change nothing. -/
theorem read_trimText (s : String) (levels : Nat) :
    (Payload.text (trimText s)).read levels = (Payload.text s).read levels := by
  have same : unwrapped (trim s.toList) = unwrapped s.toList := by rw [unwrapped, unwrapped, trim_trim]
  rw [read, read, trimText, String.toList_ofList, readChars, readChars, same]

/-- **A fence around a text changes nothing**: with a word of letters behind its first ticks or without, and
with blanks around it or without, the text is read as the same value or refused for the same defect at the
same place, however many levels are read.  The text may hold anything, also ticks and blanks, as long as it
does not begin with ticks. -/
theorem fence_changes_nothing {before word text after : String}
    (hb : ∀ c ∈ before.toList, isBlank c = true) (hw : ∀ c ∈ word.toList, c.isAlpha = true)
    (bare : ¬ ticks <+: trim text.toList) (ha : ∀ c ∈ after.toList, isBlank c = true) (levels : Nat) :
    (Payload.text (before ++ "```" ++ word ++ "\n" ++ text ++ "\n```" ++ after)).read levels =
      (Payload.text text).read levels := by
  have chars : (before ++ "```" ++ word ++ "\n" ++ text ++ "\n```" ++ after).toList =
      inFence before.toList word.toList text.toList after.toList := by
    simp [inFence, ticks]
  rw [read, read, chars, readChars, readChars, unwrapped_inFence hb hw ha, unwrapped_of_not_ticks bare]

/-- Ticks on a line inside a text do not end the fence around it: they are read as what they are without
it, which is more than one value. -/
theorem fence_around_ticks :
    (Payload.text " ```json\n[\"```\", 1]\n``` 2\n```\n").read 1 =
        (Payload.text "[\"```\", 1]\n``` 2").read 1 ∧
      (Payload.text "[\"```\", 1]\n``` 2").read 1 =
        .error (.ofCause (.malformed (.grammar ⟨2, 1⟩ .extra))) :=
  ⟨@fence_changes_nothing " " "json" "[\"```\", 1]\n``` 2" "\n"
    (List.all_eq_true.mp (by decide)) (List.all_eq_true.mp (by decide)) (by decide)
    (List.all_eq_true.mp (by decide)) 1, rfl⟩

end Payload

end ReflectedSchema
