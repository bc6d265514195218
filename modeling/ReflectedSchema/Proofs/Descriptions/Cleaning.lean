import Mathlib
import ReflectedSchema.Description

/-!
# Clean descriptions

Tags are taken out of a description in one pass from left to right.  A `<` stays only if no `>` follows it, or if
one follows at once, and in both cases it begins no tag in what is left either; so one pass is enough, also for
nested and unbalanced brackets.  The later passes replace characters that are no brackets and take out blanks, so
that they do not bring a tag back.

`cleaning_is_complete` says what is left: the words outside the tags, joined by single spaces, and nothing exactly
if there are no words.  Cleaning again changes nothing.
-/

namespace ReflectedSchema.Description

open Text

/-! ## Tags -/

/-- A tag: `<`, at least one character other than `>`, and `>`. -/
def IsTag (cs : List Char) : Prop :=
  ∃ inside, inside ≠ [] ∧ '>' ∉ inside ∧ cs = '<' :: (inside ++ ['>'])

/-- A text begins with a tag. -/
def BeginsTag (cs : List Char) : Prop :=
  ∃ tag, IsTag tag ∧ tag <+: cs

/-- A text has a tag somewhere. -/
def HasTag (cs : List Char) : Prop :=
  ∃ tag, IsTag tag ∧ tag <:+: cs

variable {cs rest out tag : List Char} {c : Char}

/-- A tag begins with a `<` that a `>` follows, but not at once. -/
theorem beginsTag_cons_iff : BeginsTag (c :: rest) ↔ c = '<' ∧ '>' ∈ rest ∧ rest.head? ≠ some '>' := by
  constructor
  · rintro ⟨_, ⟨inside, nonempty, open', rfl⟩, front⟩
    obtain ⟨rfl, after, rfl⟩ := List.cons_prefix_cons.mp front
    obtain ⟨first, more, rfl⟩ := List.exists_cons_of_ne_nil nonempty
    refine ⟨rfl, by simp, fun same => open' ?_⟩
    simp_all
  · rintro ⟨rfl, closed, apart⟩
    obtain ⟨inside, after, rfl, open'⟩ := List.eq_append_cons_of_mem closed
    refine ⟨_, ⟨inside, ?_, open', rfl⟩, after, by simp⟩
    rintro rfl
    exact apart rfl

/-- A tag somewhere is one at the front or one further back. -/
theorem hasTag_cons_iff : HasTag (c :: rest) ↔ BeginsTag (c :: rest) ∨ HasTag rest := by
  simp only [HasTag, BeginsTag, List.infix_cons_iff, and_or_left, exists_or]

/-- The empty text has no tag. -/
theorem not_hasTag_nil : ¬ HasTag [] := by
  rintro ⟨_, ⟨inside, -, -, rfl⟩, there⟩
  exact List.cons_ne_nil _ _ (List.infix_nil.mp there)

/-- Without a `>` there is no tag. -/
theorem not_hasTag_of_not_mem (h : '>' ∉ cs) : ¬ HasTag cs := by
  rintro ⟨_, ⟨inside, -, -, rfl⟩, there⟩
  exact h (there.subset (by simp))

/-- What stands in front of a first `>`. -/
theorem takeWhile_append_cons (h : '>' ∉ cs) : (cs ++ '>' :: rest).takeWhile (· ≠ '>') = cs := by
  have front : ∀ c ∈ cs, decide (c ≠ '>') = true := fun c hc =>
    decide_eq_true fun same => h (same ▸ hc)
  rw [List.takeWhile_append_of_pos front, List.takeWhile_cons_of_neg (by simp), List.append_nil]

/-- A text begins with at most one tag. -/
theorem IsTag.inj {other rest' : List Char} (h : IsTag tag) (h' : IsTag other)
    (same : tag ++ rest = other ++ rest') : tag = other ∧ rest = rest' := by
  obtain ⟨inside, -, open', rfl⟩ := h
  obtain ⟨inside', -, open'', rfl⟩ := h'
  have split : inside ++ '>' :: rest = inside' ++ '>' :: rest' := by simpa using same
  obtain rfl : inside = inside' := by
    calc inside = (inside ++ '>' :: rest).takeWhile (· ≠ '>') := (takeWhile_append_cons open').symm
      _ = (inside' ++ '>' :: rest').takeWhile (· ≠ '>') := by rw [split]
      _ = inside' := takeWhile_append_cons open''
  exact ⟨rfl, (List.cons.inj (List.append_cancel_left split)).2⟩

/-! ## What stands outside the tags -/

/-- What stands outside the tags of a text, which are found from left to right. -/
inductive Outside : List Char → List Char → Prop
  | nil : Outside [] []
  | tag {tag rest out : List Char} (h : IsTag tag) (later : Outside rest out) : Outside (tag ++ rest) out
  | char {c : Char} {rest out : List Char} (h : ¬ BeginsTag (c :: rest)) (later : Outside rest out) :
      Outside (c :: rest) (c :: out)

/-- All of a text without tags stands outside them. -/
theorem outside_self (h : ¬ HasTag cs) : Outside cs cs := by
  induction cs with
  | nil => exact .nil
  | cons c rest ih =>
    rw [hasTag_cons_iff, not_or] at h
    exact .char h.1 (ih h.2)

/-- The pass over a text keeps what stands outside the tags, wherever it is: before a tag, or behind the `<` of
what may become one. -/
theorem outside_withoutTagsFrom (cs : List Char) : Outside cs (withoutTagsFrom none cs) ∧
    ∀ inside, '>' ∉ inside →
      Outside ('<' :: (inside.reverse ++ cs)) (withoutTagsFrom (some inside) cs) := by
  induction cs with
  | nil =>
    refine ⟨.nil, fun inside open' => ?_⟩
    rw [List.append_nil]
    exact outside_self (not_hasTag_of_not_mem (by simpa using open'))
  | cons c rest ih =>
    obtain ⟨before, within⟩ := ih
    constructor
    · rw [withoutTagsFrom]
      split_ifs with hc
      · rw [hc]
        exact within [] (by simp)
      · exact .char (fun begins => hc (beginsTag_cons_iff.mp begins).1) before
    · intro inside open'
      rw [withoutTagsFrom]
      split_ifs with hc empty
      · obtain rfl := List.isEmpty_iff.mp empty
        rw [hc]
        refine .char (fun begins => (beginsTag_cons_iff.mp begins).2.2 rfl) (.char (fun begins => ?_) before)
        exact absurd (beginsTag_cons_iff.mp begins).1 (by decide)
      · have tag : IsTag ('<' :: (inside.reverse ++ ['>'])) :=
          ⟨inside.reverse, by simpa using empty, by simpa using open', rfl⟩
        simpa [hc] using Outside.tag tag before
      · have again := within (c :: inside) (by simp [open', Ne.symm hc])
        rwa [List.reverse_cons, List.append_assoc, List.singleton_append] at again

/-- Taking the tags out keeps what stands outside them. -/
theorem outside_withoutTags (cs : List Char) : Outside cs (withoutTags cs) :=
  (outside_withoutTagsFrom cs).1

/-- A tag in front changes nothing of what stands outside. -/
theorem outside_tag_append_iff (h : IsTag tag) : Outside (tag ++ rest) out ↔ Outside rest out := by
  refine ⟨fun outside => ?_, .tag h⟩
  generalize whole : tag ++ rest = cs at outside
  cases outside with
  | nil =>
    obtain ⟨inside, -, -, rfl⟩ := h
    cases whole
  | tag h' later => exact (h.inj h' whole).2 ▸ later
  | char plain _ => exact absurd ⟨tag, h, rest, whole⟩ plain

/-- A character that begins no tag stands outside. -/
theorem outside_cons_iff (h : ¬ BeginsTag (c :: rest)) :
    Outside (c :: rest) out ↔ ∃ later, out = c :: later ∧ Outside rest later := by
  refine ⟨fun outside => ?_, fun ⟨later, same, outside⟩ => same ▸ .char h outside⟩
  generalize whole : c :: rest = cs at outside h
  cases outside with
  | nil => cases whole
  | tag h' later => exact absurd ⟨_, h', List.prefix_append _ _⟩ h
  | char _ later =>
    cases whole
    exact ⟨_, rfl, later⟩

/-- What stands outside comes from the text. -/
theorem Outside.mem (h : Outside cs out) (hc : c ∈ out) : c ∈ cs := by
  induction h with
  | nil => exact hc
  | tag _ _ ih => exact List.mem_append_right _ (ih hc)
  | char _ _ ih =>
    rcases List.mem_cons.mp hc with rfl | hc
    · exact List.mem_cons_self
    · exact List.mem_cons_of_mem _ (ih hc)

/-- **One pass leaves no tag.**  What begins no tag in the text begins none in what is left of it. -/
theorem Outside.not_hasTag (h : Outside cs out) : ¬ HasTag out := by
  induction h with
  | nil => exact not_hasTag_nil
  | tag _ _ ih => exact ih
  | @char c rest out plain later ih =>
    rw [hasTag_cons_iff, not_or]
    refine ⟨fun begins => plain ?_, ih⟩
    obtain ⟨rfl, closed, apart⟩ := beginsTag_cons_iff.mp begins
    refine beginsTag_cons_iff.mpr ⟨rfl, later.mem closed, fun same => ?_⟩
    -- A `>` that follows at once is in no tag, so it still does.
    obtain ⟨more, rfl⟩ := List.head?_eq_some_iff.mp same
    obtain ⟨after, rfl, -⟩ := (outside_cons_iff fun begins => by simp [beginsTag_cons_iff] at begins).mp later
    exact apart rfl

/-- A text without tags is left as it is. -/
theorem withoutTags_eq_self (h : ¬ HasTag cs) : withoutTags cs = cs := by
  have kept := outside_withoutTags cs
  generalize withoutTags cs = out at kept
  induction kept with
  | nil => rfl
  | tag begins _ _ => exact absurd ⟨_, begins, (List.prefix_append _ _).isInfix⟩ h
  | char _ _ ih =>
    rw [hasTag_cons_iff, not_or] at h
    rw [ih h.2]

/-! ## Texts of tags and blanks -/

/-- Nothing but tags, control characters and blanks is in a text. -/
def IsVoid (cs : List Char) : Prop :=
  ∃ pieces : List (List Char), pieces.flatten = cs ∧
    ∀ piece ∈ pieces, IsTag piece ∨ ∃ c, piece = [c] ∧ (isControl c = true ∨ isBlank c = true)

/-- A text is void exactly if control characters and blanks alone are outside its tags. -/
theorem isVoid_iff (h : Outside cs out) :
    IsVoid cs ↔ ∀ c ∈ out, isControl c = true ∨ isBlank c = true := by
  constructor
  · rintro ⟨pieces, rfl, each⟩
    induction pieces generalizing out with
    | nil =>
      intro c hc
      exact absurd (h.mem hc) List.not_mem_nil
    | cons piece pieces ih =>
      obtain ⟨first, later⟩ := List.forall_mem_cons.mp each
      rw [List.flatten_cons] at h
      rcases first with tag | ⟨d, rfl, hd⟩
      · exact ih later ((outside_tag_append_iff tag).mp h)
      · have plain : ¬ BeginsTag (d :: pieces.flatten) := fun begins => by
          obtain ⟨rfl, -⟩ := beginsTag_cons_iff.mp begins
          revert hd
          decide
        obtain ⟨_, rfl, rest⟩ := (outside_cons_iff plain).mp h
        exact List.forall_mem_cons.mpr ⟨hd, ih later rest⟩
  · intro blank
    induction h with
    | nil => exact ⟨[], rfl, by simp⟩
    | @tag tag _ _ h _ ih =>
      obtain ⟨pieces, rfl, each⟩ := ih blank
      exact ⟨tag :: pieces, rfl, List.forall_mem_cons.mpr ⟨.inl h, each⟩⟩
    | @char c _ _ _ _ ih =>
      obtain ⟨hc, hrest⟩ := List.forall_mem_cons.mp blank
      obtain ⟨pieces, rfl, each⟩ := ih hrest
      exact ⟨[c] :: pieces, rfl, List.forall_mem_cons.mpr ⟨.inr ⟨c, rfl, hc⟩, each⟩⟩

/-! ## Control characters -/

/-- The space is a blank. -/
theorem isBlank_space : isBlank ' ' = true := by decide

/-- No bracket is replaced, and none comes in. -/
theorem replaced_eq_iff {b : Char} (hb : b = '<' ∨ b = '>') :
    (if isControl c then ' ' else c) = b ↔ c = b := by
  have plain : isControl b = false ∧ ' ' ≠ b := by
    rcases hb with rfl | rfl <;> decide
  split_ifs with control
  · refine iff_of_false plain.2 fun same => ?_
    rw [same, plain.1] at control
    cases control
  · rfl

/-- Taking controls out makes no tags: it only puts spaces where they were. -/
theorem hasTag_of_withoutControls (h : HasTag (withoutControls cs)) : HasTag cs := by
  induction cs with
  | nil => exact h
  | cons c rest ih =>
    rw [withoutControls, List.map_cons, hasTag_cons_iff, beginsTag_cons_iff, replaced_eq_iff (.inl rfl)] at h
    rw [hasTag_cons_iff, beginsTag_cons_iff]
    refine h.imp (fun ⟨hc, closed, apart⟩ => ⟨hc, ?_, fun same => apart ?_⟩) ih
    · obtain ⟨d, hd, same⟩ := List.mem_map.mp closed
      exact (replaced_eq_iff (.inr rfl)).mp same ▸ hd
    · rw [List.head?_map, same]
      rfl

/-- What is left without controls are spaces and the characters that are none. -/
theorem mem_withoutControls {d : Char} (h : d ∈ withoutControls cs) :
    d = ' ' ∨ d ∈ cs ∧ isControl d = false := by
  obtain ⟨c, hc, rfl⟩ := List.mem_map.mp h
  split_ifs with control
  · exact .inl rfl
  · exact .inr ⟨hc, by simpa using control⟩

/-- A text without controls stays as it is. -/
theorem withoutControls_eq_self (h : ∀ c ∈ cs, isControl c = false) : withoutControls cs = cs := by
  refine (List.map_congr_left fun c hc => ?_).trans (List.map_id cs)
  rw [h c hc]
  rfl

/-! ## Words -/

/-- Words have characters, and no blanks among them. -/
def AreWords (words : List (List Char)) : Prop :=
  ∀ word ∈ words, word ≠ [] ∧ ∀ c ∈ word, isBlank c = false

variable {words : List (List Char)} {word started : List Char}

/-- Words are joined by a space before the next one. -/
theorem joinWords_cons (h : words ≠ []) : joinWords (word :: words) = word ++ ' ' :: joinWords words := by
  cases words with
  | nil => exact absurd rfl h
  | cons next words => rfl

/-- Joined words consist of the words and of spaces. -/
theorem mem_joinWords (h : c ∈ joinWords words) : c = ' ' ∨ ∃ word ∈ words, c ∈ word := by
  induction words with
  | nil => cases h
  | cons word words ih =>
    by_cases last : words = []
    · rw [last] at h
      exact .inr ⟨word, List.mem_cons_self, h⟩
    · rw [joinWords_cons last] at h
      rcases List.mem_append.mp h with h | h
      · exact .inr ⟨word, List.mem_cons_self, h⟩
      · rcases List.mem_cons.mp h with h | h
        · exact .inl h
        · exact (ih h).imp_right fun ⟨w, hw, hc⟩ => ⟨w, List.mem_cons_of_mem _ hw, hc⟩

/-- Only no words at all are joined to the empty text. -/
theorem joinWords_eq_nil_iff (h : AreWords words) : joinWords words = [] ↔ words = [] := by
  cases words with
  | nil => exact iff_of_true rfl rfl
  | cons word words =>
    refine iff_of_false (fun none => ?_) (List.cons_ne_nil _ _)
    refine (h word List.mem_cons_self).1 ?_
    cases words with
    | nil => exact none
    | cons next words => exact (List.append_eq_nil_iff.mp none).1

/-- The characters of a word go on with the word that was begun. -/
theorem wordsFrom_append (h : ∀ c ∈ word, isBlank c = false) :
    wordsFrom started (word ++ rest) = wordsFrom (word.reverse ++ started) rest := by
  induction word generalizing started with
  | nil => rfl
  | cons c word ih =>
    obtain ⟨hc, hword⟩ := List.forall_mem_cons.mp h
    rw [List.cons_append, wordsFrom, if_neg (by simp [hc]), ih hword, List.reverse_cons,
      List.append_assoc, List.singleton_append]

/-- Words that were joined are told apart again. -/
theorem words_joinWords (h : AreWords words) : Text.words (joinWords words) = words := by
  induction words with
  | nil => rfl
  | cons word words ih =>
    obtain ⟨⟨nonempty, plain⟩, later⟩ := List.forall_mem_cons.mp h
    by_cases last : words = []
    · rw [last, joinWords, Text.words, ← List.append_nil word, wordsFrom_append plain]
      simp [wordsFrom, nonempty]
    · rw [joinWords_cons last, Text.words, wordsFrom_append plain, List.append_nil, wordsFrom,
        if_pos (by decide), if_neg (by simpa using nonempty), List.reverse_reverse]
      exact congrArg _ (ih later)

/-- Words are made of what was begun and of what is read on. -/
theorem mem_of_mem_wordsFrom (h : word ∈ wordsFrom started cs) (hc : c ∈ word) : c ∈ started ∨ c ∈ cs := by
  induction cs generalizing started with
  | nil =>
    rw [wordsFrom] at h
    split_ifs at h
    · cases h
    · exact .inl (List.mem_reverse.mp (List.mem_singleton.mp h ▸ hc))
  | cons d rest ih =>
    rw [wordsFrom] at h
    split_ifs at h
    · exact (ih h).imp (absurd · List.not_mem_nil) (List.mem_cons_of_mem _)
    · rcases List.mem_cons.mp h with rfl | h
      · exact .inl (List.mem_reverse.mp hc)
      · exact (ih h).imp (absurd · List.not_mem_nil) (List.mem_cons_of_mem _)
    · rcases ih h with begun | later
      · exact (List.mem_cons.mp begun).elim (fun same => .inr (same ▸ List.mem_cons_self)) .inl
      · exact .inr (List.mem_cons_of_mem _ later)

/-- Words are made of characters of the text. -/
theorem mem_of_mem_words (h : word ∈ Text.words cs) (hc : c ∈ word) : c ∈ cs :=
  (mem_of_mem_wordsFrom h hc).elim (absurd · List.not_mem_nil) id

/-- There are no words exactly if nothing was begun and the rest is blank. -/
theorem wordsFrom_eq_nil_iff : wordsFrom started cs = [] ↔ started = [] ∧ ∀ c ∈ cs, isBlank c = true := by
  induction cs generalizing started with
  | nil => simp [wordsFrom]
  | cons c rest ih =>
    rw [wordsFrom]
    split_ifs with hc empty
    · rw [ih, List.forall_mem_cons]
      simp [hc, List.isEmpty_iff.mp empty]
    · simp [List.isEmpty_iff.not.mp empty]
    · rw [ih]
      simp [hc]

/-! ## Texts of words -/

/-- What is put behind a text takes no tag away. -/
theorem HasTag.append {after : List Char} (h : HasTag cs) : HasTag (cs ++ after) := by
  obtain ⟨tag, ht, there⟩ := h
  exact ⟨tag, ht, there.trans (List.prefix_append _ _).isInfix⟩

/-- A single space between a word and what follows it is in no tag that the blanks between them are not in. -/
theorem hasTag_of_gap {joined : List Char} (blank : isBlank c = true) (tags : HasTag joined → HasTag rest)
    (mem : '>' ∈ joined → '>' ∈ rest) (h : HasTag (word ++ ' ' :: joined)) : HasTag (word ++ c :: rest) := by
  induction word with
  | nil =>
    rw [List.nil_append, hasTag_cons_iff, beginsTag_cons_iff] at h
    rcases h with ⟨space, -⟩ | h
    · exact absurd space (by decide)
    · exact hasTag_cons_iff.mpr (.inr (tags h))
  | cons d word ih =>
    rw [List.cons_append, hasTag_cons_iff, beginsTag_cons_iff] at h
    rw [List.cons_append, hasTag_cons_iff, beginsTag_cons_iff]
    refine h.imp (fun ⟨hd, closed, apart⟩ => ⟨hd, ?_, ?_⟩) ih
    · rcases List.mem_append.mp closed with here | later
      · exact List.mem_append_left _ here
      · exact List.mem_append_right _ (List.mem_cons_of_mem _ (mem (List.mem_of_ne_of_mem (by decide) later)))
    · cases word with
      | nil =>
        rintro ⟨⟩
        cases blank
      | cons first word => exact apart

/-- Joining the words of a text brings in no tag. -/
theorem hasTag_of_joinWords (h : HasTag (joinWords (wordsFrom started cs))) : HasTag (started.reverse ++ cs) := by
  induction cs generalizing started with
  | nil =>
    rw [wordsFrom] at h
    split_ifs at h
    · exact absurd h not_hasTag_nil
    · exact h.append
  | cons c rest ih =>
    rw [wordsFrom] at h
    split_ifs at h with hc empty
    · rw [List.isEmpty_iff.mp empty]
      exact hasTag_cons_iff.mpr (.inr (ih h))
    · by_cases last : wordsFrom [] rest = []
      · rw [last] at h
        exact h.append
      · rw [joinWords_cons last] at h
        refine hasTag_of_gap hc ih (fun closed => ?_) h
        rcases mem_joinWords closed with space | ⟨w, hw, there⟩
        · exact absurd space (by decide)
        · exact mem_of_mem_words hw there
    · have again := ih h
      rwa [List.reverse_cons, List.append_assoc, List.singleton_append] at again

/-- Joined words begin with no blank. -/
theorem head?_joinWords (h : AreWords words) (hc : (joinWords words).head? = some c) : isBlank c = false := by
  cases words with
  | nil => cases hc
  | cons word words =>
    obtain ⟨nonempty, plain⟩ := h word List.mem_cons_self
    obtain ⟨first, more, rfl⟩ := List.exists_cons_of_ne_nil nonempty
    have same : (joinWords ((first :: more) :: words)).head? = some first := by
      cases words <;> rfl
    exact plain c (Option.some.inj (same.symm.trans hc) ▸ List.mem_cons_self)

/-- Joined words end with no blank. -/
theorem getLast?_joinWords (h : AreWords words) (hc : (joinWords words).getLast? = some c) :
    isBlank c = false := by
  induction words with
  | nil => cases hc
  | cons word words ih =>
    obtain ⟨first, later⟩ := List.forall_mem_cons.mp h
    by_cases last : words = []
    · rw [last] at hc
      exact first.2 c (List.mem_of_getLast? hc)
    · obtain ⟨d, hd⟩ := Option.ne_none_iff_exists'.mp
        (List.getLast?_eq_none_iff.not.mpr ((joinWords_eq_nil_iff later).not.mpr last))
      rw [joinWords_cons last, List.getLast?_append, List.getLast?_cons, hd] at hc
      exact ih later (hd.trans hc)

/-- There is no space at the end of a word, or at the front of the next one. -/
theorem spaced_append {joined : List Char} (plain : ∀ c ∈ word, isBlank c = false)
    (front : joined.head? ≠ some ' ') (spaced : ¬ [' ', ' '] <:+: joined) :
    ¬ [' ', ' '] <:+: word ++ ' ' :: joined := by
  induction word with
  | nil =>
    rw [List.nil_append, List.infix_cons_iff, not_or, List.cons_prefix_cons]
    refine ⟨fun ⟨_, after, same⟩ => front ?_, spaced⟩
    rw [← same]
    rfl
  | cons c word ih =>
    obtain ⟨hc, hword⟩ := List.forall_mem_cons.mp plain
    rw [List.cons_append, List.infix_cons_iff, not_or, List.cons_prefix_cons]
    refine ⟨fun ⟨same, _⟩ => ?_, ih hword⟩
    rw [← same] at hc
    exact absurd hc (by decide)

/-- There are never two spaces between joined words. -/
theorem spaced_joinWords (h : AreWords words) : ¬ [' ', ' '] <:+: joinWords words := by
  induction words with
  | nil => exact fun there => List.cons_ne_nil _ _ (List.infix_nil.mp there)
  | cons word words ih =>
    obtain ⟨⟨-, plain⟩, later⟩ := List.forall_mem_cons.mp h
    by_cases last : words = []
    · rw [last]
      exact fun there => absurd (plain ' ' (there.subset (by simp))) (by decide)
    · rw [joinWords_cons last]
      exact spaced_append plain (fun front => absurd (head?_joinWords later front) (by decide)) (ih later)

/-! ## Clean texts -/

/-- A text is clean: no tag and no control character is in it, no blank is at its ends, and the blanks inside are
single spaces. -/
structure IsClean (cs : List Char) : Prop where
  noTag : ¬ HasTag cs
  noControl : ∀ c ∈ cs, ¬ (c.toNat ≤ 0x1F ∨ 0x7F ≤ c.toNat ∧ c.toNat ≤ 0x9F)
  notAtFront : ∀ c, cs.head? = some c → isBlank c = false
  notAtEnd : ∀ c, cs.getLast? = some c → isBlank c = false
  spaces : ∀ c ∈ cs, isBlank c = true → c = ' '
  single : ¬ [' ', ' '] <:+: cs

/-- The controls are the characters below the space and those from the delete character to the end of its
block. -/
theorem isControl_eq_false_iff : isControl c = false ↔ ¬ (c.toNat ≤ 0x1F ∨ 0x7F ≤ c.toNat ∧ c.toNat ≤ 0x9F) := by
  simp only [isControl, Bool.or_eq_false_iff, Bool.and_eq_false_iff, decide_eq_false_iff_not]
  omega

/-- A text is cut into words that are not empty and hold no blank. -/
theorem areWords_words (cs : List Char) : AreWords (Text.words cs) :=
  fun _ => words_sound

/-- A cleaned text is clean. -/
theorem isClean_cleanChars (cs : List Char) : IsClean (cleanChars cs) := by
  have areWords := areWords_words (withoutControls (withoutTags cs))
  have mem : ∀ c ∈ cleanChars cs, c = ' ' ∨ isBlank c = false ∧ isControl c = false := fun c hc => by
    rcases mem_joinWords hc with space | ⟨word, hw, there⟩
    · exact .inl space
    · refine (mem_withoutControls (mem_of_mem_words hw there)).imp_right fun ⟨_, plain⟩ => ?_
      exact ⟨(areWords word hw).2 c there, plain⟩
  constructor
  case noTag =>
    exact fun h => (outside_withoutTags cs).not_hasTag (hasTag_of_withoutControls (hasTag_of_joinWords h))
  case noControl =>
    intro c hc
    refine isControl_eq_false_iff.mp ((mem c hc).elim (fun space => ?_) And.right)
    rw [space]
    decide
  case notAtFront => exact fun c => head?_joinWords areWords
  case notAtEnd => exact fun c => getLast?_joinWords areWords
  case spaces =>
    exact fun c hc blank => (mem c hc).resolve_right fun plain => Bool.false_ne_true (plain.1.symm.trans blank)
  case single => exact spaced_joinWords areWords

/-- Cleaning again changes nothing. -/
theorem cleanChars_cleanChars (cs : List Char) : cleanChars (cleanChars cs) = cleanChars cs := by
  have clean := isClean_cleanChars cs
  have plain : ∀ c ∈ cleanChars cs, isControl c = false := fun c hc =>
    isControl_eq_false_iff.mpr (clean.noControl c hc)
  rw [cleanChars, withoutTags_eq_self clean.noTag, withoutControls_eq_self plain, cleanChars,
    words_joinWords (areWords_words _)]

/-- Nothing is left exactly if a text is void. -/
theorem cleanChars_eq_nil_iff : cleanChars cs = [] ↔ IsVoid cs := by
  rw [cleanChars, joinWords_eq_nil_iff (areWords_words _), isVoid_iff (outside_withoutTags cs), Text.words,
    wordsFrom_eq_nil_iff]
  simp only [true_and, withoutControls, List.forall_mem_map]
  refine forall₂_congr fun c _ => ?_
  split_ifs with control
  · simp [control, isBlank_space]
  · simp [control]

/-- There is no description exactly if nothing is left. -/
theorem clean_eq_none_iff {text : String} : clean text = none ↔ cleanChars text.toList = [] := by
  unfold clean
  dsimp only
  split_ifs with empty <;> simpa using empty

/-- There is one exactly if something is left, and this it is. -/
theorem clean_eq_some_iff {text r : String} :
    clean text = some r ↔ cleanChars text.toList ≠ [] ∧ r.toList = cleanChars text.toList := by
  unfold clean
  dsimp only
  split_ifs with empty
  · simp [List.isEmpty_iff.mp empty]
  · rw [Option.some.injEq, and_iff_right (List.isEmpty_iff.not.mp empty)]
    refine ⟨fun same => ?_, fun same => ?_⟩
    · rw [← same, String.toList_ofList]
    · rw [← same, String.ofList_toList]

/-- **Cleaning is complete.**  A text that cleaning gives is clean, holds the words outside the tags, and is given
again if it is cleaned; there is none exactly if nothing but tags, control characters and blanks was there. -/
theorem cleaning_is_complete (text : String) :
    (∀ r, clean text = some r → IsClean r.toList ∧ clean r = some r ∧
      ∃ outside, Outside text.toList outside ∧
        Text.words r.toList = Text.words (withoutControls outside)) ∧
    (clean text = none ↔ IsVoid text.toList) := by
  refine ⟨fun r h => ?_, clean_eq_none_iff.trans cleanChars_eq_nil_iff⟩
  obtain ⟨nonempty, same⟩ := clean_eq_some_iff.mp h
  refine ⟨same ▸ isClean_cleanChars _, clean_eq_some_iff.mpr ?_, _, outside_withoutTags _, ?_⟩
  · rw [same, cleanChars_cleanChars]
    exact ⟨nonempty, rfl⟩
  · rw [same, cleanChars, words_joinWords (areWords_words _)]

/-- An outer bracket is taken as the beginning of the tag inside it. -/
example : clean "<<b>size> <> in\n < cm>metres" = some "size> <> in metres" := by decide +kernel

end ReflectedSchema.Description
