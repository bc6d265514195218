import Mathlib
import ReflectedSchema.Json.Parser
import ReflectedSchema.Json.Printer

/-!
# Strings are read back

A character of a string is written as itself, as a short escape, as one UTF-16 unit or as two.  Each way is
undone by the reader, which stands between two characters before and after it (`StringState.Between`), so a
string is read back character by character.
-/

namespace ReflectedSchema

open Text

/-- A hexadecimal digit is read back as its value. -/
theorem Text.hexValue?_hexDigit {n : Nat} (h : n < 16) : Percent.hexValue? (hexDigit n) = some n := by
  interval_cases n <;> rfl

namespace Json

variable {opening rest : List Char} {s : StringState} {c : Char}

/-- The reader of a string stands between two characters, and no half of a pair waits. -/
structure StringState.Between (s : StringState) : Prop where
  alone : s.high = none
  mode : s.mode = .plain ∨ ∃ mark, s.mode = .closed mark

/-- Between escapes nothing is left to settle. -/
theorem StringState.Between.settled (hs : s.Between) : s.settled = s.read := by
  rw [StringState.settled, hs.alone]
  rfl

/-! ## One step of the reader -/

/-- Between escapes, a quote ends the string, a backslash begins an escape, and any other character but a
control is read as it is. -/
theorem readString_cons (hs : s.mode = .plain ∨ ∃ mark, s.mode = .closed mark) :
    readString opening s (c :: rest) =
      if c = '"' then .ok (String.ofList s.settled.reverse, rest)
      else if c = '\\' then readString opening { s with mode := .escaped (c :: rest) } rest
      else if c.toNat < 0x20 then .error (.defect .control (c :: rest))
      else readString opening (s.push c) rest := by
  obtain ⟨read, high, mode⟩ := s
  rcases hs with h | ⟨mark, h⟩ <;> cases h <;> rfl

/-- A unit is read from its four digits. -/
theorem readString_hexDigits {unit : Nat} (h : unit < 0x10000) (mark : List Char) :
    readString opening { s with mode := .hex 4 0 mark } (hexDigits 4 unit ++ rest) =
      readString opening (s.pushUnit unit mark) rest := by
  have first : unit / 16 / 16 / 16 % 16 < 16 := Nat.mod_lt _ (by decide)
  have second : unit / 16 / 16 % 16 < 16 := Nat.mod_lt _ (by decide)
  have third : unit / 16 % 16 < 16 := Nat.mod_lt _ (by decide)
  have fourth : unit % 16 < 16 := Nat.mod_lt _ (by decide)
  have value : 16 * (16 * (16 * (16 * 0 + unit / 16 / 16 / 16 % 16) + unit / 16 / 16 % 16) +
      unit / 16 % 16) + unit % 16 = unit := by
    omega
  simp only [hexDigits, List.nil_append, List.cons_append, readString, hexValue?_hexDigit first,
    hexValue?_hexDigit second, hexValue?_hexDigit third, hexValue?_hexDigit fourth, value]
  rfl

/-- A code unit is read back from its escape. -/
theorem readString_unitEscape (hs : s.mode = .plain ∨ ∃ mark, s.mode = .closed mark) {unit : Nat}
    (h : unit < 0x10000) :
    readString opening s (unitEscape unit ++ rest) =
      readString opening (s.pushUnit unit ('u' :: (hexDigits 4 unit ++ rest))) rest := by
  rw [unitEscape, List.cons_append, List.cons_append, readString_cons hs, if_neg (by decide), if_pos rfl]
  exact readString_hexDigits h ('u' :: (hexDigits 4 unit ++ rest))

/-- A short escape is read back as its character. -/
theorem readString_shortEscape (hs : s.mode = .plain ∨ ∃ mark, s.mode = .closed mark) {e : Char}
    (hu : e ≠ 'u') (h : shortEscape? e = some c) :
    readString opening s ('\\' :: e :: rest) = readString opening (s.push c) rest := by
  rw [readString_cons hs, if_neg (by decide), if_pos rfl]
  simp only [readString, hu, h, if_false]
  rfl

/-! ## What a step adds -/

/-- A character between escapes is read, and leaves the reader between escapes. -/
theorem StringState.Between.push (hs : s.Between) (c : Char) :
    (s.push c).Between ∧ (s.push c).read = c :: s.read :=
  ⟨⟨rfl, .inl rfl⟩, congrArg (c :: ·) hs.settled⟩

/-- A character is no half of a surrogate pair. -/
theorem char_cases (c : Char) : c.toNat < 0xD800 ∨ (0xE000 ≤ c.toNat ∧ c.toNat < 0x110000) := by
  rcases c.valid with h | ⟨h, h'⟩
  · exact .inl h
  · exact .inr ⟨h, h'⟩

/-- A unit that is a character by itself adds it. -/
theorem StringState.Between.pushUnit_char (hs : s.Between) (c : Char) (mark : List Char) :
    (s.pushUnit c.toNat mark).Between ∧ (s.pushUnit c.toNat mark).read = c :: s.read := by
  have alone := char_cases c
  have pushed : s.pushUnit c.toNat mark = { s.push c with mode := .closed mark } := by
    rw [StringState.pushUnit, if_neg (by omega), if_neg (by omega), Char.ofNat_toNat]
  rw [pushed]
  exact ⟨⟨rfl, .inr ⟨mark, rfl⟩⟩, (hs.push c).2⟩

/-- The two units of a character beyond the basic plane add it. -/
theorem StringState.Between.pushUnit_pair (hs : s.Between) (h : 0x10000 ≤ c.toNat)
    (mark mark' : List Char) :
    let first := s.pushUnit (0xD800 + (c.toNat - 0x10000) / 0x400) mark
    let second := first.pushUnit (0xDC00 + (c.toNat - 0x10000) % 0x400) mark'
    first.mode = .closed mark ∧ second.Between ∧ second.read = c :: s.read := by
  intro first second
  have valid := char_cases c
  have waits : first =
      { read := s.read, high := some (0xD800 + (c.toNat - 0x10000) / 0x400), mode := .closed mark } := by
    show s.pushUnit _ mark = _
    rw [StringState.pushUnit, if_pos (by omega), hs.settled]
  have whole : 0x10000 + (0xD800 + (c.toNat - 0x10000) / 0x400 - 0xD800) * 0x400 +
      (0xDC00 + (c.toNat - 0x10000) % 0x400 - 0xDC00) = c.toNat := by
    omega
  have completes : second = { read := c :: s.read, mode := .closed mark' } := by
    show first.pushUnit _ mark' = _
    rw [waits, StringState.pushUnit, if_neg (by omega), if_pos (by omega)]
    dsimp only
    rw [whole, Char.ofNat_toNat]
  rw [completes, waits]
  exact ⟨rfl, ⟨rfl, .inr ⟨mark', rfl⟩⟩, rfl⟩

/-! ## Characters and strings -/

/-- **A character is read back from the way it is written.** -/
theorem readString_stringChar (hs : s.Between) (c : Char) (rest : List Char) :
    ∃ t : StringState, t.Between ∧ t.read = c :: s.read ∧
      readString opening s (stringChar c ++ rest) = readString opening t rest := by
  have short {e : Char} (hu : e ≠ 'u') (h : shortEscape? e = some c) :
      ∃ t : StringState, t.Between ∧ t.read = c :: s.read ∧
        readString opening s ('\\' :: e :: rest) = readString opening t rest :=
    ⟨s.push c, (hs.push c).1, (hs.push c).2, readString_shortEscape hs.mode hu h⟩
  have named {n : Nat} (h : c.toNat = n) : c = Char.ofNat n := by
    rw [← h, Char.ofNat_toNat]
  unfold stringChar
  split_ifs with quote backslash lineFeed return_ tab formFeed backspace plain basic
  · exact short (by decide) (by rw [quote]; rfl)
  · exact short (by decide) (by rw [backslash]; rfl)
  · exact short (by decide) (by rw [lineFeed]; rfl)
  · exact short (by decide) (by rw [return_]; rfl)
  · exact short (by decide) (by rw [tab]; rfl)
  · exact short (by decide) (by rw [named formFeed]; rfl)
  · exact short (by decide) (by rw [named backspace]; rfl)
  · refine ⟨s.push c, (hs.push c).1, (hs.push c).2, ?_⟩
    rw [List.singleton_append, readString_cons hs.mode, if_neg quote, if_neg backslash, if_neg (by omega)]
  · exact ⟨_, (hs.pushUnit_char c _).1, (hs.pushUnit_char c _).2, readString_unitEscape hs.mode basic⟩
  · have valid := char_cases c
    rw [List.append_assoc, readString_unitEscape hs.mode (by omega)]
    obtain ⟨mode, between, read⟩ := hs.pushUnit_pair (c := c) (by omega)
      ('u' :: (hexDigits 4 _ ++ _)) ('u' :: (hexDigits 4 _ ++ rest))
    exact ⟨_, between, read, readString_unitEscape (.inr ⟨_, mode⟩) (by omega)⟩

/-- Quoted characters are read back, up to the quote that ends them. -/
theorem readString_flatMap (hs : s.Between) (cs rest : List Char) :
    readString opening s (cs.flatMap stringChar ++ '"' :: rest) =
      .ok (String.ofList (s.read.reverse ++ cs), rest) := by
  induction cs generalizing s with
  | nil =>
    rw [List.flatMap_nil, List.nil_append, readString_cons hs.mode, if_pos rfl, hs.settled, List.append_nil]
  | cons c cs ih =>
    obtain ⟨t, between, read, same⟩ := @readString_stringChar opening s hs c
      (cs.flatMap stringChar ++ '"' :: rest)
    rw [List.flatMap_cons, List.append_assoc, same, ih between, read]
    simp

/-- **A string is read back from its text**, whatever comes behind. -/
theorem readString_stringText (text : String) (rest : List Char) :
    readString opening {} (text.toList.flatMap stringChar ++ '"' :: rest) = .ok (text, rest) := by
  rw [readString_flatMap ⟨rfl, .inl rfl⟩]
  simp

end Json

end ReflectedSchema
