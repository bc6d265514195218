import Mathlib
import ReflectedSchema.Json.Parser

/-!
# What the reader scans

A value ends where a blank stands, or what separates or closes (`Closes`).  Nothing of that goes on with a
number, so a number that closes is read as it stands, and no word or number is read otherwise for what comes
behind.  Arrays and objects are both read as separated
elements (`readSeparated`), one round for each.
-/

namespace ReflectedSchema.Json

variable {cs rest : List Char} {c : Char}

/-! ## Blanks and ends -/

/-- What may stand behind a value: nothing, a blank, or what separates or closes. -/
def Closes (rest : List Char) : Prop :=
  ∀ c ∈ rest.head?, isSpace c = true ∨ c = ',' ∨ c = ']' ∨ c = '\x7d'

/-- A value may stand at the end of a text. -/
theorem closes_nil : Closes [] := nofun

/-- A value may stand in front of what separates or closes. -/
theorem closes_cons (h : c = ',' ∨ c = ']' ∨ c = '\x7d') (cs : List Char) : Closes (c :: cs) := by
  rintro d ⟨⟩
  exact .inr h

/-- Blanks may stand behind a value. -/
theorem Closes.append {blank : List Char} (hb : ∀ c ∈ blank, isSpace c = true) (h : Closes cs) :
    Closes (blank ++ cs) := by
  cases blank with
  | nil => exact h
  | cons c blank =>
    rintro d ⟨⟩
    exact .inl (hb c List.mem_cons_self)

/-- Blanks are skipped up to what is none. -/
theorem skip_append {blank : List Char} (hb : ∀ c ∈ blank, isSpace c = true)
    (h : ∀ c ∈ cs.head?, isSpace c = false) : skip (blank ++ cs) = cs := by
  rw [skip, List.dropWhile_append_of_pos hb]
  cases cs with
  | nil => rfl
  | cons c cs => exact List.dropWhile_cons_of_neg (by simp [h c rfl])

/-- No digit stands behind a value, and nothing that goes on with a number. -/
theorem Closes.ends (h : Closes rest) :
    (∀ c ∈ rest.head?, c.isDigit = false) ∧ fraction rest = none ∧ exponent rest = none := by
  cases rest with
  | nil => exact ⟨nofun, rfl, rfl⟩
  | cons c rest =>
    have hc := h c rfl
    simp only [isSpace, Bool.or_eq_true, decide_eq_true_eq, or_assoc] at hc
    rcases hc with rfl | rfl | rfl | rfl | rfl | rfl | rfl <;>
      exact ⟨fun d hd => by cases hd; rfl, rfl, rfl⟩

/-! ## Numbers -/

/-- A digit is not what is none. -/
theorem digit_ne {c d : Char} (h : c.isDigit = true) (hd : d.isDigit = false) : c ≠ d := by
  rintro rfl
  rw [h] at hd
  cases hd

/-- Digits are taken up to what is none. -/
theorem takeWhile_digits {digits : List Char} (hd : ∀ c ∈ digits, c.isDigit = true)
    (h : ∀ c ∈ rest.head?, c.isDigit = false) :
    (digits ++ rest).takeWhile Char.isDigit = digits ∧
      (digits ++ rest).dropWhile Char.isDigit = rest := by
  rw [List.takeWhile_append_of_pos hd, List.dropWhile_append_of_pos hd]
  cases rest with
  | nil => simp
  | cons c rest => simp [h c rfl]

/-- The digits that a number begins with: one zero, or all digits at the front. -/
def whole? (cs : List Char) : Option (List Char × List Char) :=
  match cs with
  | '0' :: rest => some (['0'], rest)
  | c :: _ =>
    if c.isDigit then some (cs.takeWhile Char.isDigit, cs.dropWhile Char.isDigit) else none
  | [] => none

/-- A number is read from its first digits, its fraction and its exponent. -/
theorem readNumber_eq (negative : Bool) (start cs : List Char) : readNumber negative start cs =
    match whole? cs with
    | none => .error (.defect .value start)
    | some (digits, rest) =>
      let part := fraction rest
      let afterPart := match part with | some (_, r) => r | none => rest
      let power := exponent afterPart
      match part, power with
      | none, none =>
        if maxDigits < digits.length then .error (.tooLong digits.length)
        else
          let n : Int := digitsValue digits
          .ok (.int (if negative then -n else n), rest)
      | _, _ =>
        let places := match part with | some (p, _) => p | none => []
        let (e, after) := match power with | some (e, r) => (e, r) | none => (0, afterPart)
        .ok (.float (Binary64.ofDecimal negative (digitsValue (digits ++ places)) (e - places.length)),
          after) :=
  rfl

/-- Digits without a zero in front are the ones that a number begins with. -/
theorem whole?_append {digits : List Char} (hd : ∀ c ∈ digits, c.isDigit = true)
    (nonempty : digits ≠ []) (zero : digits.head? = some '0' → digits = ['0'])
    (h : ∀ c ∈ rest.head?, c.isDigit = false) : whole? (digits ++ rest) = some (digits, rest) := by
  obtain ⟨taken, left⟩ := takeWhile_digits hd h
  cases digits with
  | nil => exact absurd rfl nonempty
  | cons c digits =>
    by_cases hc : c = '0'
    · subst hc
      obtain ⟨-, rfl⟩ := List.cons.inj (zero rfl)
      rfl
    · have digit := hd c List.mem_cons_self
      rw [List.cons_append] at taken left ⊢
      simp only [whole?, digit, if_true, taken, left]

/-- A character that a value may begin with: no blank, nothing that closes, and no mark in front of a text. -/
structure Opening (c : Char) : Prop where
  space : isSpace c = false
  bracket : c ≠ ']'
  brace : c ≠ '\x7d'
  mark : c ≠ Char.ofNat 0xFEFF

/-- A value may begin with a digit. -/
theorem Opening.of_digit (h : c.isDigit = true) : Opening c where
  space := by
    simp [isSpace, digit_ne h (d := ' ') rfl, digit_ne h (d := '\t') rfl, digit_ne h (d := '\n') rfl,
      digit_ne h (d := '\r') rfl]
  bracket := digit_ne h rfl
  brace := digit_ne h rfl
  mark := digit_ne h rfl

/-! ## Words -/

/-- The words that stand for a value. -/
def words : List (String × Json) :=
  [("null", .null), ("true", .bool true), ("false", .bool false), ("NaN", .float .nan),
    ("Infinity", .float (.infinite false)), ("-Infinity", .float (.infinite true))]

/-- What is neither an array, an object nor a string is a word or a number. -/
theorem readScalar_eq (cs : List Char) : readScalar cs =
    match words.findSome? fun (w, v) => (word? w.toList cs).map fun rest => (v, rest) with
    | some done => .ok done
    | none =>
      match cs with
      | '-' :: rest => readNumber true cs rest
      | _ => readNumber false cs cs :=
  rfl

/-- A digit begins a number. -/
theorem readScalar_digit (h : c.isDigit = true) :
    readScalar (c :: cs) = readNumber false (c :: cs) (c :: cs) := by
  have other {w : Char} {ws : List Char} (hw : w.isDigit = false) : word? (w :: ws) (c :: cs) = none := by
    rw [word?, if_neg (digit_ne h hw).symm]
  have noWord : (words.findSome? fun (w, v) =>
      (word? w.toList (c :: cs)).map fun rest => (v, rest)) = none := by
    refine List.findSome?_eq_none_iff.mpr fun word hw => Option.map_eq_none_iff.mpr ?_
    simp only [words, List.mem_cons, List.not_mem_nil, or_false] at hw
    rcases hw with rfl | rfl | rfl | rfl | rfl | rfl <;> exact other rfl
  rw [readScalar_eq, noWord]
  dsimp only
  split
  · rename_i rest same
    exact absurd (List.cons.inj same).1 (digit_ne h rfl)
  · rfl

/-- A minus in front of a digit begins a number. -/
theorem readScalar_minus (h : c.isDigit = true) :
    readScalar ('-' :: c :: cs) = readNumber true ('-' :: c :: cs) (c :: cs) := by
  have letters : "-Infinity".toList = ['-', 'I', 'n', 'f', 'i', 'n', 'i', 't', 'y'] := by simp
  have infinity : word? "-Infinity".toList ('-' :: c :: cs) = none := by
    rw [letters, word?, if_pos rfl, word?, if_neg (digit_ne h rfl).symm]
  have noWord : (words.findSome? fun (w, v) =>
      (word? w.toList ('-' :: c :: cs)).map fun rest => (v, rest)) = none := by
    refine List.findSome?_eq_none_iff.mpr fun word hw => Option.map_eq_none_iff.mpr ?_
    simp only [words, List.mem_cons, List.not_mem_nil, or_false] at hw
    rcases hw with rfl | rfl | rfl | rfl | rfl | rfl
    · rfl
    · rfl
    · rfl
    · rfl
    · rfl
    · exact infinity
  rw [readScalar_eq, noWord]
  rfl

/-! ## Separated elements -/

section

variable {α : Type} {element : List Char → Read α} {close b : Char} {finish : List α → Json} {d : Defect}
  {bound after : List Char} {done : List α} {x : α}

/-- Read elements with commas between them, up to what closes them.  Arrays and objects are read in this
way; `finish` makes a value of the elements. -/
def readSeparated (element : List Char → Read α) (close : Char) (finish : List α → Json) (d : Defect) :
    (bound : List Char) → (done : List α) → List Char → Read Json
  | [], _, cs => .error (.defect d cs)
  | _ :: bound, done, cs =>
    match element cs with
    | .error e => .error e
    | .ok (x, rest) =>
      match skip rest with
      | [] => .error (.defect .comma [])
      | c :: after =>
        if c = close then .ok (finish (x :: done).reverse, after)
        else if c = ',' then readSeparated element close finish d bound (x :: done) (skip after)
        else .error (.defect .comma (c :: after))

/-- An element with a defect ends the loop. -/
theorem readSeparated_of_error {e : ReadError} (h : element cs = .error e) :
    readSeparated element close finish d (b :: bound) done cs = .error e := by
  rw [readSeparated, h]

/-- The last element ends the loop with what closes it. -/
theorem readSeparated_last (h : element cs = .ok (x, rest)) (hr : skip rest = close :: after) :
    readSeparated element close finish d (b :: bound) done cs =
      .ok (finish (done.reverse ++ [x]), after) := by
  rw [readSeparated, h]
  dsimp only
  rw [hr, List.reverse_cons]
  exact if_pos rfl

/-- An element in front of a comma goes on with the next one. -/
theorem readSeparated_more (hc : close ≠ ',') (h : element cs = .ok (x, rest))
    (hr : skip rest = ',' :: after) : readSeparated element close finish d (b :: bound) done cs =
      readSeparated element close finish d bound (x :: done) (skip after) := by
  rw [readSeparated, h]
  dsimp only
  rw [hr]
  exact (if_neg hc.symm).trans (if_pos rfl)

/-- The ways in which a round over separated elements can go. -/
theorem readSeparated_cases (element : List Char → Read α) (close : Char) (finish : List α → Json)
    (d : Defect) (b : Char) (bound : List Char) (done : List α) (cs : List Char) :
    (∃ e, element cs = .error e ∧ readSeparated element close finish d (b :: bound) done cs = .error e) ∨
      ∃ x rest, element cs = .ok (x, rest) ∧
        ((∃ after, skip rest = close :: after) ∨ (∃ after, close ≠ ',' ∧ skip rest = ',' :: after) ∨
          ∃ other, readSeparated element close finish d (b :: bound) done cs =
            .error (.defect .comma other)) := by
  cases h : element cs with
  | error e => exact .inl ⟨e, rfl, readSeparated_of_error h⟩
  | ok found =>
    obtain ⟨x, rest⟩ := found
    refine .inr ⟨x, rest, rfl, ?_⟩
    rw [readSeparated, h]
    dsimp only
    cases hs : skip rest with
    | nil => exact .inr (.inr ⟨[], rfl⟩)
    | cons c after =>
      by_cases closing : c = close
      · exact .inl ⟨after, by rw [closing]⟩
      · by_cases comma : c = ','
        · exact .inr (.inl ⟨after, fun same => closing (comma.trans same.symm), by rw [comma]⟩)
        · refine .inr (.inr ⟨c :: after, ?_⟩)
          dsimp only
          rw [if_neg closing, if_neg comma]

end

/-- The items of an array are separated values. -/
theorem readItems_eq (value : List Char → Read Json) (bound : List Char) (done : List Json)
    (cs : List Char) :
    readItems value bound done cs = readSeparated value ']' .arr .value bound done cs := by
  induction bound generalizing done cs with
  | nil => rfl
  | cons b bound ih =>
    rw [readItems, readSeparated]
    cases value cs with
    | error e => rfl
    | ok found =>
      obtain ⟨item, rest⟩ := found
      dsimp only
      cases skip rest with
      | nil => rfl
      | cons c after =>
        by_cases closing : c = ']'
        · subst closing
          rfl
        · by_cases comma : c = ','
          · subst comma
            exact ih _ _
          · simp [closing, comma]

/-- Read a field: a name in quotes, a colon and a value. -/
def readField (value : List Char → Read Json) (cs : List Char) : Read (String × Json) :=
  match cs with
  | '"' :: quoted =>
    match readString cs {} quoted with
    | .error e => .error e
    | .ok (name, afterName) =>
      match skip afterName with
      | ':' :: afterColon =>
        match value (skip afterColon) with
        | .error e => .error e
        | .ok (v, rest) => .ok ((name, v), rest)
      | other => .error (.defect .colon other)
  | _ => .error (.defect .name cs)

/-- A field begins with a quoted name, and goes on behind a colon. -/
theorem readField_quoted (value : List Char → Read Json) (quoted : List Char) :
    readField value ('"' :: quoted) =
      match readString ('"' :: quoted) {} quoted with
      | .error e => .error e
      | .ok (name, afterName) =>
        match skip afterName with
        | ':' :: afterColon =>
          match value (skip afterColon) with
          | .error e => .error e
          | .ok (v, rest) => .ok ((name, v), rest)
        | other => .error (.defect .colon other) :=
  rfl

/-- The fields of an object are separated. -/
theorem readFields_eq (value : List Char → Read Json) (bound : List Char) (done : List (String × Json))
    (cs : List Char) : readFields value bound done cs =
      readSeparated (readField value) '\x7d' (fun fields => .obj (merge fields)) .name bound done cs := by
  induction bound generalizing done cs with
  | nil => rfl
  | cons b bound ih =>
    unfold readFields
    rw [readSeparated]
    split
    · rename_i quoted
      rw [readField_quoted]
      cases hname : readString ('"' :: quoted) {} quoted with
      | error e => rfl
      | ok found =>
        obtain ⟨name, afterName⟩ := found
        cases hcolon : skip afterName with
        | nil => simp only [hcolon]
        | cons c afterColon =>
          by_cases colon : c = ':'
          swap
          · simp [hcolon, colon]
          subst colon
          cases hv : value (skip afterColon) with
          | error e => simp only [hcolon, hv]
          | ok found =>
            obtain ⟨v, rest⟩ := found
            simp only [hcolon, hv]
            cases skip rest with
            | nil => rfl
            | cons c after =>
              by_cases closing : c = '\x7d'
              · subst closing
                rfl
              · by_cases comma : c = ','
                · subst comma
                  exact ih _ _
                · simp [closing, comma]
    · rename_i unquoted
      have wrong : readField value cs = .error (.defect .name cs) := by
        unfold readField
        split
        · exact absurd rfl (unquoted _)
        · rfl
      rw [wrong]

/-- Read what stands behind an opening bracket: nothing but the closing one, or separated elements. -/
def readBracketed {α : Type} (element : List Char → Read α) (opening close : Char) (finish : List α → Json)
    (d : Defect) (cs : List Char) : Read Json :=
  if (skip cs).head? = some close then .ok (finish [], (skip cs).tail)
  else readSeparated element close finish d (opening :: cs) [] (skip cs)

variable {levels : Nat}

/-- An opening bracket begins an array, one level further in. -/
theorem readValue_array (cs : List Char) : readValue (levels + 1) ('[' :: cs) =
    readBracketed (readValue levels) '[' ']' .arr .value cs := by
  rw [readValue, readBracketed]
  cases hs : skip cs with
  | nil => exact readItems_eq _ _ _ _
  | cons c after =>
    by_cases closing : c = ']'
    · subst closing
      rfl
    · simp [closing, readItems_eq]

/-- An opening brace begins an object, one level further in. -/
theorem readValue_object (cs : List Char) : readValue (levels + 1) ('\x7b' :: cs) =
    readBracketed (readField (readValue levels)) '\x7b' '\x7d' (fun fields => .obj (merge fields)) .name
      cs := by
  rw [readValue, readBracketed]
  cases hs : skip cs with
  | nil => exact readFields_eq _ _ _ _
  | cons c after =>
    by_cases closing : c = '\x7d'
    · subst closing
      rfl
    · simp [closing, readFields_eq]

/-- A quote begins a string. -/
theorem readValue_string (cs : List Char) : readValue levels ('"' :: cs) =
    match readString ('"' :: cs) {} cs with
    | .error e => .error e
    | .ok (s, after) => .ok (.str s, after) := by
  cases levels <;> rfl

/-- What begins with no quote and no bracket is a word or a number. -/
theorem readValue_scalar (h : ∀ c ∈ cs.head?, c ≠ '"' ∧ c ≠ '[' ∧ c ≠ '\x7b') :
    readValue levels cs = readScalar cs := by
  unfold readValue
  split
  · exact absurd rfl (h '"' rfl).1
  · exact absurd rfl (h '[' rfl).2.1
  · exact absurd rfl (h '\x7b' rfl).2.2
  · exact absurd rfl (h '[' rfl).2.1
  · exact absurd rfl (h '\x7b' rfl).2.2
  · rfl

/-- A value is a string, an array, an object, or a word or a number. -/
theorem begins_cases (cs : List Char) : (∃ quoted, cs = '"' :: quoted) ∨ (∃ items, cs = '[' :: items) ∨
    (∃ fields, cs = '\x7b' :: fields) ∨ ∀ c ∈ cs.head?, c ≠ '"' ∧ c ≠ '[' ∧ c ≠ '\x7b' := by
  cases cs with
  | nil => exact .inr (.inr (.inr nofun))
  | cons c cs =>
    by_cases quote : c = '"'
    · exact .inl ⟨cs, by rw [quote]⟩
    · by_cases bracket : c = '['
      · exact .inr (.inl ⟨cs, by rw [bracket]⟩)
      · by_cases brace : c = '\x7b'
        · exact .inr (.inr (.inl ⟨cs, by rw [brace]⟩))
        · exact .inr (.inr (.inr fun d hd => by cases hd; exact ⟨quote, bracket, brace⟩))

end ReflectedSchema.Json
