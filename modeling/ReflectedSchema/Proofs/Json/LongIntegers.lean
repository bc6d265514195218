import ReflectedSchema.Proofs.Json.Locality

/-!
# Where the reader gives up on an integer

Integers of more than `maxDigits` digits are not read, which is no defect of the text but an error of its own.
It comes up exactly where such an integer stands in a place that a value is due at: the text before it, read by
itself, breaks off with a value expected at its very end (`GivesUp`).  One direction goes by what the reader does
with the whole text, the other by what it does with the text before the integer; both by the same rounds.
-/

namespace ReflectedSchema.Json

variable {cs rest before number : List Char} {c : Char} {n levels : Nat}

/-! ## Long integers -/

/-- More digits than can be read stand at the front, of an integer and not of a number with a fraction or an
exponent. -/
structure LongDigits (n : Nat) (digits after : List Char) : Prop where
  digit : ∀ c ∈ digits, c.isDigit = true
  zero : digits.head? ≠ some '0'
  length : digits.length = n
  long : maxDigits < n
  ends : ∀ c ∈ after.head?, c.isDigit = false
  noFraction : fraction after = none
  noExponent : exponent after = none

/-- An integer of more digits than can be read stands at the front. -/
inductive LongAt (n : Nat) : List Char → Prop
  | positive {digits after : List Char} (h : LongDigits n digits after) : LongAt n (digits ++ after)
  | negative {digits after : List Char} (h : LongDigits n digits after) : LongAt n ('-' :: (digits ++ after))

/-- A long integer has a first digit. -/
theorem LongDigits.exists_cons {digits after : List Char} (h : LongDigits n digits after) :
    ∃ d ds, digits = d :: ds ∧ d.isDigit = true := by
  cases digits with
  | nil => exact absurd (h.length ▸ h.long) (by simp [maxDigits])
  | cons d ds => exact ⟨d, ds, rfl, h.digit d List.mem_cons_self⟩

/-- Digits that are too many are refused as such, whatever stands in front of them or behind. -/
theorem readNumber_of_long {digits after : List Char} (h : LongDigits n digits after) (negative : Bool)
    (start : List Char) : readNumber negative start (digits ++ after) = .error (.tooLong n) := by
  obtain ⟨d, ds, rfl, -⟩ := h.exists_cons
  rw [readNumber_eq, whole?_append h.digit (by simp) (fun head => absurd head h.zero) h.ends]
  dsimp only
  rw [h.noFraction]
  dsimp only
  rw [h.noExponent]
  dsimp only
  rw [h.length, if_pos h.long]

/-- A number begins with one zero, or with all digits at the front, of which the first is none. -/
theorem whole?_cases {digits : List Char} (h : whole? cs = some (digits, rest)) :
    digits = ['0'] ∨ (digits.head? ≠ some '0' ∧ ∀ c ∈ rest.head?, c.isDigit = false) := by
  unfold whole? at h
  split at h
  · cases h
    exact .inl rfl
  · rename_i c behind zero
    split_ifs at h with digit
    cases h
    refine .inr ⟨fun head => ?_, fun d hd => ?_⟩
    · rw [List.takeWhile_cons_of_pos digit] at head
      exact zero (Option.some.inj head)
    · obtain ⟨-, rest, -, left, -, -, ends⟩ := exists_digits (c :: behind)
      rw [left] at hd
      exact ends d hd
  · cases h

/-- Only an integer is refused for its digits: a number with a fraction or an exponent is a double. -/
theorem numberOf_error {negative : Bool} {digits : List Char} {part : Option (List Char)}
    {power : Option Int} {e : ReadError} (h : numberOf negative digits part power = .error e) :
    part = none ∧ power = none ∧ maxDigits < digits.length ∧ e = .tooLong digits.length := by
  unfold numberOf at h
  split at h
  · split_ifs at h with long
    cases h
    exact ⟨rfl, rfl, long, rfl⟩
  · cases h

/-- What can be wrong with a number: there is none, or it is too long. -/
theorem readNumber_error {negative : Bool} {start : List Char} {e : ReadError}
    (h : readNumber negative start cs = .error e) : e = .defect .value start ∨
      ∃ n digits after, e = .tooLong n ∧ cs = digits ++ after ∧ LongDigits n digits after := by
  cases whole : whole? cs with
  | none =>
    rw [readNumber_of_none negative start whole] at h
    cases h
    exact .inl rfl
  | some found =>
    obtain ⟨digits, behind⟩ := found
    rw [readNumber_of_whole negative start whole] at h
    obtain ⟨rfl, -, digit, -⟩ := whole?_local whole
    cases number : numberOf negative digits ((fraction behind).map (·.1))
        ((exponent (leftBehind behind (fraction behind))).map (·.1)) with
    | ok v =>
      rw [number] at h
      cases h
    | error wrong =>
      rw [number] at h
      cases h
      obtain ⟨part, power, long, rfl⟩ := numberOf_error number
      rw [Option.map_eq_none_iff] at part power
      rw [part] at power
      rcases whole?_cases whole with rfl | ⟨zero, ends⟩
      · exact absurd long (by decide)
      · exact .inr ⟨_, digits, behind, rfl, rfl, digit, zero, rfl, long, ends, part, power⟩

/-- A long integer begins with a sign or a digit. -/
theorem LongAt.exists_cons (h : LongAt n cs) : ∃ c rest, cs = c :: rest ∧ (c = '-' ∨ c.isDigit = true) := by
  cases h with
  | positive h =>
    obtain ⟨d, ds, rfl, digit⟩ := h.exists_cons
    exact ⟨d, _, rfl, .inr digit⟩
  | negative h => exact ⟨'-', _, rfl, .inl rfl⟩

/-- A long integer is refused where a number or a word is read. -/
theorem LongAt.readScalar (h : LongAt n cs) : readScalar cs = .error (.tooLong n) := by
  cases h with
  | positive h =>
    have long := readNumber_of_long h false
    obtain ⟨d, ds, rfl, digit⟩ := h.exists_cons
    rw [List.cons_append, readScalar_digit digit]
    exact long _
  | negative h =>
    have long := readNumber_of_long h true
    obtain ⟨d, ds, rfl, digit⟩ := h.exists_cons
    rw [List.cons_append, readScalar_minus digit]
    exact long _

/-- What can be wrong with a word or a number: there is none, or it is a number that is too long. -/
theorem readScalar_error {e : ReadError} (h : readScalar cs = .error e) :
    e = .defect .value cs ∨ ∃ n, e = .tooLong n ∧ LongAt n cs := by
  rcases readScalar_cases cs with ⟨word, v, behind, -, -, read⟩ | ⟨behind, rfl, read⟩ | read <;>
    rw [read] at h
  · cases h
  · rcases readNumber_error h with rfl | ⟨n, digits, after, rfl, rfl, long⟩
    · exact .inl rfl
    · exact .inr ⟨n, rfl, .negative long⟩
  · rcases readNumber_error h with rfl | ⟨n, digits, after, rfl, rfl, long⟩
    · exact .inl rfl
    · exact .inr ⟨n, rfl, .positive long⟩

/-! ## Giving up -/

/-- The reader gives up on an integer exactly where one that is too long stands in a place that a value is due
at: the text before it breaks off with a value expected. -/
def GivesUp {α : Type} (reader : List Char → Read α) : Prop :=
  ∀ cs n, reader cs = .error (.tooLong n) ↔ ∃ before number, cs = before ++ number ∧ LongAt n number ∧
    reader before = .error (.defect .value [])

/-- Nothing but a value breaks off with a value expected. -/
theorem readString_error {opening : List Char} {s : StringState} {e : ReadError}
    (h : readString opening s cs = .error e) : ∃ d remaining, e = .defect d remaining ∧ d ≠ .value := by
  induction cs generalizing s with
  | nil =>
    rw [readString] at h
    split at h <;> cases h
    · exact ⟨_, _, rfl, by decide⟩
    · exact ⟨_, _, rfl, by decide⟩
    · exact ⟨_, _, rfl, by decide⟩
    · exact ⟨_, _, rfl, by decide⟩
  | cons c cs ih =>
    have between (hs : s.mode = .plain ∨ ∃ mark, s.mode = .closed mark) :
        ∃ d remaining, e = .defect d remaining ∧ d ≠ .value := by
      rw [readString_cons hs] at h
      split_ifs at h
      · exact ih h
      · cases h
        exact ⟨_, _, rfl, by decide⟩
      · exact ih h
    cases hs : s.mode with
    | plain => exact between (.inl hs)
    | closed mark => exact between (.inr ⟨mark, hs⟩)
    | escaped mark =>
      rw [readString_escaped hs] at h
      split_ifs at h
      · exact ih h
      · split at h
        · exact ih h
        · cases h
          exact ⟨_, _, rfl, by decide⟩
    | hex left unit mark =>
      rw [readString_hex hs] at h
      split at h
      · cases h
        exact ⟨_, _, rfl, by decide⟩
      · split_ifs at h
        · exact ih h
        · exact ih h

/-- No blank is in front of a long integer. -/
theorem LongAt.not_space (h : LongAt n number) : ∀ c ∈ number.head?, isSpace c = false := by
  obtain ⟨c, rest, rfl, first⟩ := h.exists_cons
  rintro d ⟨⟩
  rcases first with rfl | digit
  · rfl
  · exact (Opening.of_digit digit).space

/-- Blanks in front are skipped up to a long integer at most. -/
theorem LongAt.skip_before (h : LongAt n number) (cs : List Char) :
    skip (cs ++ number) = skip cs ++ number := by
  rw [skip, List.dropWhile_append]
  split_ifs with blank
  · rw [skip, List.isEmpty_iff.mp blank]
    exact skip_append (List.forall_mem_nil _) h.not_space
  · rfl

section

variable {α : Type} {element : List Char → Read α} {opening close : Char} {finish : List α → Json}
  {d : Defect} {bound : List Char} {done : List α}

/-- The text before the integer on which a reader of separated elements gives up. -/
theorem exists_of_readSeparated_tooLong (hc : close = ']' ∨ close = '\x7d') (he : Local element)
    (hg : GivesUp element) (h : readSeparated element close finish d bound done cs = .error (.tooLong n)) :
    ∃ before number, cs = before ++ number ∧ LongAt n number ∧ ∀ room, before.length < room.length →
      readSeparated element close finish d room done before = .error (.defect .value []) := by
  have comma : close ≠ ',' := by rcases hc with rfl | rfl <;> decide
  induction bound generalizing done cs with
  | nil => cases h
  | cons b bound ih =>
    rcases readSeparated_cases element close finish d b bound done cs with
      ⟨e, first, failed⟩ | ⟨x, behind, first, ⟨after, closed⟩ | ⟨after, -, more⟩ | ⟨other, failed⟩⟩
    · rw [failed] at h
      cases h
      obtain ⟨before, number, rfl, long, due⟩ := (hg cs n).mp first
      refine ⟨before, number, rfl, long, fun room hr => ?_⟩
      obtain ⟨b, room, rfl⟩ := List.exists_cons_of_length_pos (Nat.zero_lt_of_lt hr)
      exact readSeparated_of_error due
    · rw [readSeparated_last first closed] at h
      cases h
    · rw [readSeparated_more comma first more] at h
      obtain ⟨front, -, rfl, again⟩ := he first
      obtain ⟨blank, rfl, hb, mark⟩ := exists_mark more
      obtain ⟨gap, hgap, hgap', head⟩ := exists_blank after
      obtain ⟨before, number, split, long, due⟩ := ih h
      rw [split] at hgap head
      refine ⟨front ++ (blank ++ ',' :: (gap ++ before)), number, by rw [hgap]; simp, long, fun room hr => ?_⟩
      obtain ⟨b, room, rfl⟩ := List.exists_cons_of_length_pos (Nat.zero_lt_of_lt hr)
      simp only [List.length_append, List.length_cons] at hr
      rw [readSeparated_more comma (again _ (.append hb (closes_cons (.inl rfl) _))) (mark _),
        skip_front hgap' head]
      exact due room (by omega)
    · rw [failed] at h
      cases h

/-- A reader of separated elements gives up on a long integer where it expects a value. -/
theorem readSeparated_of_due (hc : close = ']' ∨ close = '\x7d') (he : Local element) (hg : GivesUp element)
    (long : LongAt n number) (hb : before.length < bound.length)
    (h : readSeparated element close finish d bound done before = .error (.defect .value []))
    {room : List Char} (hr : before.length < room.length) :
    readSeparated element close finish d room done (before ++ number) = .error (.tooLong n) := by
  have comma : close ≠ ',' := by rcases hc with rfl | rfl <;> decide
  induction bound generalizing done before room with
  | nil => exact absurd hb (Nat.not_lt_zero _)
  | cons b bound ih =>
    obtain ⟨c, room, rfl⟩ := List.exists_cons_of_length_pos (Nat.zero_lt_of_lt hr)
    rcases readSeparated_cases element close finish d b bound done before with
      ⟨e, first, failed⟩ | ⟨x, behind, first, ⟨after, closed⟩ | ⟨after, -, more⟩ | ⟨other, failed⟩⟩
    · rw [failed] at h
      cases h
      exact readSeparated_of_error ((hg _ n).mpr ⟨before, number, rfl, long, first⟩)
    · rw [readSeparated_last first closed] at h
      cases h
    · rw [readSeparated_more comma first more] at h
      obtain ⟨front, -, rfl, again⟩ := he first
      obtain ⟨blank, rfl, blanks, mark⟩ := exists_mark more
      obtain ⟨gap, hgap, -, -⟩ := exists_blank after
      have shorter := congrArg List.length hgap
      simp only [List.length_append, List.length_cons] at hb hr shorter
      have shape : front ++ (blank ++ ',' :: after) ++ number =
          front ++ (blank ++ ',' :: (after ++ number)) := by simp
      rw [shape, readSeparated_more comma (again _ (.append blanks (closes_cons (.inl rfl) _))) (mark _),
        long.skip_before]
      exact ih (by omega) h (by omega)
    · rw [failed] at h
      cases h

/-- A reader of bracketed elements gives up where that of the elements does. -/
theorem readBracketed_givesUp (hc : close = ']' ∨ close = '\x7d') (he : Local element)
    (hg : GivesUp element) : GivesUp (readBracketed element opening close finish d) := by
  intro cs n
  constructor
  · intro h
    rw [readBracketed] at h
    split_ifs at h with closed
    obtain ⟨gap, hgap, blanks, head⟩ := exists_blank cs
    obtain ⟨before, number, split, long, due⟩ := exists_of_readSeparated_tooLong hc he hg h
    rw [split] at hgap head closed
    refine ⟨gap ++ before, number, by rw [hgap, List.append_assoc], long, ?_⟩
    have unclosed : before.head? ≠ some close := by
      cases before with
      | nil => rintro ⟨⟩
      | cons c before => exact closed
    rw [readBracketed, skip_front blanks head, if_neg unclosed]
    refine due _ ?_
    simp only [List.length_cons, List.length_append]
    omega
  · rintro ⟨before, number, rfl, long, due⟩
    rw [readBracketed] at due
    split_ifs at due with closed
    obtain ⟨gap, hgap, -, -⟩ := exists_blank before
    have shorter := congrArg List.length hgap
    rw [List.length_append] at shorter
    have unclosed : (skip before ++ number).head? ≠ some close := by
      cases hs : skip before with
      | nil =>
        obtain ⟨c, rest, rfl, first⟩ := long.exists_cons
        rintro ⟨⟩
        rcases first with rfl | digit
        · rcases hc with hc | hc <;> cases hc
        · rcases hc with rfl | rfl <;> cases digit
      | cons c rest =>
        rw [hs] at closed
        exact closed
    rw [readBracketed, long.skip_before, if_neg unclosed]
    refine readSeparated_of_due hc he hg long ?_ due ?_
    · simp only [List.length_cons]
      omega
    · simp only [List.length_cons, List.length_append]
      omega

end

/-- What can be wrong with a field: its name or its colon, or its value. -/
theorem readField_error {value : List Char → Read Json} {e : ReadError} (h : readField value cs = .error e) :
    (∃ d remaining, e = .defect d remaining ∧ d ≠ .value) ∨
      ∃ quoted name afterName afterColon, cs = '"' :: quoted ∧
        readString ('"' :: quoted) {} quoted = .ok (name, afterName) ∧ skip afterName = ':' :: afterColon ∧
          value (skip afterColon) = .error e := by
  unfold readField at h
  split at h
  · rename_i quoted
    split at h
    · cases h
      exact .inl (readString_error ‹_›)
    · rename_i name afterName hname
      split at h
      · rename_i afterColon hcolon
        split at h
        · cases h
          exact .inr ⟨quoted, name, afterName, afterColon, rfl, hname, hcolon, ‹_›⟩
        · cases h
      · cases h
        exact .inl ⟨_, _, rfl, by decide⟩
  · cases h
    exact .inl ⟨_, _, rfl, by decide⟩

/-- A reader of fields gives up where that of their values does. -/
theorem readField_givesUp {value : List Char → Read Json} (hv : GivesUp value) :
    GivesUp (readField value) := by
  intro cs n
  constructor
  · intro h
    obtain ⟨d, remaining, same, -⟩ | ⟨quoted, name, afterName, afterColon, rfl, hname, hcolon, failed⟩ :=
      readField_error h
    · cases same
    obtain ⟨letters, rfl, named⟩ := readString_local hname
    obtain ⟨blank, rfl, -, mark⟩ := exists_mark hcolon
    obtain ⟨gap, hgap, gaps, head⟩ := exists_blank afterColon
    obtain ⟨before, number, split, long, due⟩ := (hv _ n).mp failed
    rw [split] at hgap head
    refine ⟨'"' :: (letters ++ (blank ++ ':' :: (gap ++ before))), number, by rw [hgap]; simp, long, ?_⟩
    rw [readField_quoted, named _ _ _ (.refl _)]
    simp only [mark, skip_front gaps head, due]
  · rintro ⟨before, number, rfl, long, due⟩
    obtain ⟨d, remaining, same, value⟩ | ⟨quoted, name, afterName, afterColon, rfl, hname, hcolon, failed⟩ :=
      readField_error due
    · cases same
      exact absurd rfl value
    obtain ⟨letters, rfl, named⟩ := readString_local hname
    obtain ⟨blank, rfl, -, mark⟩ := exists_mark hcolon
    have shape : '"' :: (letters ++ (blank ++ ':' :: afterColon)) ++ number =
        '"' :: (letters ++ (blank ++ ':' :: (afterColon ++ number))) := by simp
    rw [shape, readField_quoted, named _ _ _ (.refl _)]
    simp only [mark, long.skip_before, (hv _ n).mpr ⟨_, number, rfl, long, failed⟩]

/-- A long integer is neither a string nor an array nor an object. -/
theorem LongAt.plain (h : LongAt n number) : ∀ c ∈ number.head?, c ≠ '"' ∧ c ≠ '[' ∧ c ≠ '\x7b' := by
  obtain ⟨c, rest, rfl, first⟩ := h.exists_cons
  rintro d ⟨⟩
  rcases first with rfl | digit
  · decide
  · exact ⟨digit_ne digit rfl, digit_ne digit rfl, digit_ne digit rfl⟩

/-- A string is never refused for a value that is missing. -/
theorem readValue_string_error {levels : Nat} {quoted : List Char} {e : ReadError}
    (h : readValue levels ('"' :: quoted) = .error e) :
    ∃ d remaining, e = .defect d remaining ∧ d ≠ .value := by
  rw [readValue_string] at h
  split at h
  · cases h
    exact readString_error ‹_›
  · cases h

/-- What is no string, array or object is read up to a long integer only if it is that integer. -/
theorem tooLong_iff_of_plain {levels : Nat} (plain : ∀ c ∈ cs.head?, c ≠ '"' ∧ c ≠ '[' ∧ c ≠ '\x7b') :
    readValue levels cs = .error (.tooLong n) ↔ LongAt n cs := by
  rw [readValue_scalar plain]
  refine ⟨fun h => ?_, fun h => h.readScalar⟩
  obtain same | ⟨n, same, long⟩ := readScalar_error h
  · cases same
  · cases same
    exact long

/-- **The reader of values gives up on long integers only**, and on each that stands where a value is due. -/
theorem readValue_givesUp (levels : Nat) : GivesUp (readValue levels) := by
  have empty (levels : Nat) : readValue levels [] = .error (.defect .value []) := by cases levels <;> rfl
  -- The text before an integer that stands by itself is empty.
  have of_plain {levels n : Nat} {before number : List Char} (long : LongAt n number)
      (plain : ∀ c ∈ before.head?, c ≠ '"' ∧ c ≠ '[' ∧ c ≠ '\x7b')
      (due : readValue levels before = .error (.defect .value [])) :
      readValue levels (before ++ number) = .error (.tooLong n) := by
    rw [readValue_scalar plain] at due
    obtain same | ⟨_, same, -⟩ := readScalar_error due
    · cases same
      exact (tooLong_iff_of_plain long.plain).mpr long
    · cases same
  induction levels with
  | zero =>
    intro cs n
    constructor
    · intro h
      rcases begins_cases cs with ⟨quoted, rfl⟩ | ⟨items, rfl⟩ | ⟨fields, rfl⟩ | plain
      · obtain ⟨_, _, same, -⟩ := readValue_string_error h
        cases same
      · cases h
      · cases h
      · exact ⟨[], cs, rfl, (tooLong_iff_of_plain plain).mp h, empty 0⟩
    · rintro ⟨before, number, rfl, long, due⟩
      rcases begins_cases before with ⟨quoted, rfl⟩ | ⟨items, rfl⟩ | ⟨fields, rfl⟩ | plain
      · obtain ⟨_, _, same, value⟩ := readValue_string_error due
        cases same
        exact absurd rfl value
      · cases due
      · cases due
      · exact of_plain long plain due
  | succ levels ih =>
    have array : GivesUp (readBracketed (readValue levels) '[' ']' .arr .value) :=
      readBracketed_givesUp (.inl rfl) (readValue_local levels) ih
    have object : GivesUp (readBracketed (readField (readValue levels)) '\x7b' '\x7d'
        (fun fields => .obj (merge fields)) .name) :=
      readBracketed_givesUp (.inr rfl) (readField_local (readValue_local levels)) (readField_givesUp ih)
    intro cs n
    constructor
    · intro h
      rcases begins_cases cs with ⟨quoted, rfl⟩ | ⟨items, rfl⟩ | ⟨fields, rfl⟩ | plain
      · obtain ⟨_, _, same, -⟩ := readValue_string_error h
        cases same
      · rw [readValue_array] at h
        obtain ⟨before, number, rfl, long, due⟩ := (array items n).mp h
        exact ⟨'[' :: before, number, rfl, long, by rw [readValue_array, due]⟩
      · rw [readValue_object] at h
        obtain ⟨before, number, rfl, long, due⟩ := (object fields n).mp h
        exact ⟨'\x7b' :: before, number, rfl, long, by rw [readValue_object, due]⟩
      · exact ⟨[], cs, rfl, (tooLong_iff_of_plain plain).mp h, empty _⟩
    · rintro ⟨before, number, rfl, long, due⟩
      rcases begins_cases before with ⟨quoted, rfl⟩ | ⟨items, rfl⟩ | ⟨fields, rfl⟩ | plain
      · obtain ⟨_, _, same, value⟩ := readValue_string_error due
        cases same
        exact absurd rfl value
      · rw [readValue_array] at due
        rw [List.cons_append, readValue_array]
        exact (array _ n).mpr ⟨items, number, rfl, long, due⟩
      · rw [readValue_object] at due
        rw [List.cons_append, readValue_object]
        exact (object _ n).mpr ⟨fields, number, rfl, long, due⟩
      · exact of_plain long plain due

/-! ## Texts -/

/-- The mark that no text may begin with. -/
def byteOrderMark : Char := Char.ofNat 0xFEFF

/-- A mark in front of a text is a defect. -/
theorem read_of_mark (h : cs.head? = some byteOrderMark) :
    read levels cs = .error (.defect .byteOrderMark cs) := by
  cases cs with
  | nil => cases h
  | cons c cs => exact if_pos (Option.some.inj h)

/-- Without a mark, a text is a value between blanks. -/
theorem read_of_not_mark (h : cs.head? ≠ some byteOrderMark) : read levels cs =
    match readValue levels (skip cs) with
    | .error e => .error e
    | .ok (v, rest) => if (skip rest).isEmpty then .ok v else .error (.defect .extra (skip rest)) := by
  cases cs with
  | nil => cases levels <;> rfl
  | cons c cs => exact if_neg fun same => h (congrArg some same)

/-- A text that does not end in an error of its own is one value up to blanks. -/
theorem readValue_of_read_error {e : ReadError} (h : read levels cs = .error e)
    (mark : ∀ remaining, e ≠ .defect .byteOrderMark remaining)
    (extra : ∀ remaining, e ≠ .defect .extra remaining) :
    cs.head? ≠ some byteOrderMark ∧ readValue levels (skip cs) = .error e := by
  have unmarked : cs.head? ≠ some byteOrderMark := by
    intro marked
    rw [read_of_mark marked] at h
    cases h
    exact mark _ rfl
  refine ⟨unmarked, ?_⟩
  rw [read_of_not_mark unmarked] at h
  split at h
  · cases h
    assumption
  · split_ifs at h
    cases h
    exact absurd rfl (extra _)

/-- **A text is given up exactly where a long integer stands in the place of a value**: the text before it,
read by itself, lacks nothing but a value at its very end. -/
theorem read_tooLong_iff : read levels cs = .error (.tooLong n) ↔ ∃ before number,
    cs = before ++ number ∧ LongAt n number ∧ read levels before = .error (.defect .value []) := by
  constructor
  · intro h
    obtain ⟨unmarked, failed⟩ := readValue_of_read_error h nofun nofun
    obtain ⟨gap, hgap, blanks, head⟩ := exists_blank cs
    obtain ⟨before, number, split, long, due⟩ := (readValue_givesUp levels _ n).mp failed
    rw [split] at hgap head
    refine ⟨gap ++ before, number, by rw [hgap, List.append_assoc], long, ?_⟩
    have unmarked' : (gap ++ before).head? ≠ some byteOrderMark := by
      rw [hgap, ← List.append_assoc] at unmarked
      cases hb : gap ++ before with
      | nil => nofun
      | cons c rest =>
        rw [hb] at unmarked
        exact unmarked
    rw [read_of_not_mark unmarked', skip_front blanks head, due]
  · rintro ⟨before, number, rfl, long, due⟩
    obtain ⟨unmarked, failed⟩ := readValue_of_read_error due nofun nofun
    have unmarked' : (before ++ number).head? ≠ some byteOrderMark := by
      cases before with
      | nil =>
        obtain ⟨c, rest, rfl, first⟩ := long.exists_cons
        rintro ⟨⟩
        rcases first with same | digit
        · exact absurd same (by decide)
        · cases digit
      | cons c before => exact unmarked
    have givenUp := (readValue_givesUp levels _ n).mpr ⟨skip before, number, rfl, long, failed⟩
    rw [read_of_not_mark unmarked', long.skip_before, givenUp]

end ReflectedSchema.Json
