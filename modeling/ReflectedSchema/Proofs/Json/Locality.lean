import ReflectedSchema.Proofs.Json.Quoting
import ReflectedSchema.Proofs.Json.Scanning

/-!
# The reader goes no further than the value

What is read as a value is a front of the text (`Local`): in front of anything else that may stand behind a
value, the same front is read as the same value.  For strings, arrays and objects anything may stand behind.
The reader of a string notes where an escape began, which matters for its errors only, so two states that
differ in these notes are `Twin`s.
-/

namespace ReflectedSchema.Json

variable {cs rest : List Char} {c : Char} {v : Json}

/-- The reader takes a front of the text, and would take it in front of anything behind a value. -/
def Local {α : Type} (reader : List Char → Read α) : Prop :=
  ∀ ⦃cs x rest⦄, reader cs = .ok (x, rest) → ∃ front, front ≠ [] ∧ cs = front ++ rest ∧
    ∀ after, Closes after → reader (front ++ after) = .ok (x, after)

/-! ## Strings -/

/-- Two modes that differ only in where an escape began. -/
inductive StringMode.Twin : StringMode → StringMode → Prop
  | between {m n : StringMode} (hm : m = .plain ∨ ∃ mark, m = .closed mark)
      (hn : n = .plain ∨ ∃ mark, n = .closed mark) : Twin m n
  | escaped (mark other : List Char) : Twin (.escaped mark) (.escaped other)
  | hex (left unit : Nat) (mark other : List Char) : Twin (.hex left unit mark) (.hex left unit other)

/-- What is twin to a mode between escapes is between escapes. -/
theorem StringMode.Twin.of_between {m n : StringMode} (h : m.Twin n)
    (hm : m = .plain ∨ ∃ mark, m = .closed mark) : n = .plain ∨ ∃ mark, n = .closed mark := by
  cases h with
  | between _ hn => exact hn
  | escaped => rcases hm with hm | ⟨_, hm⟩ <;> cases hm
  | hex => rcases hm with hm | ⟨_, hm⟩ <;> cases hm

/-- What is twin to a mode behind a backslash is behind one. -/
theorem StringMode.Twin.of_escaped {mark : List Char} {n : StringMode}
    (h : (StringMode.escaped mark).Twin n) : ∃ other, n = .escaped other := by
  cases h with
  | between hm _ => rcases hm with hm | ⟨_, hm⟩ <;> cases hm
  | escaped => exact ⟨_, rfl⟩

/-- What is twin to a mode inside a code unit has read as much of it. -/
theorem StringMode.Twin.of_hex {left unit : Nat} {mark : List Char} {n : StringMode}
    (h : (StringMode.hex left unit mark).Twin n) : ∃ other, n = .hex left unit other := by
  cases h with
  | between hm _ => rcases hm with hm | ⟨_, hm⟩ <;> cases hm
  | hex => exact ⟨_, rfl⟩

/-- Two states of the reader of a string that differ only in where an escape began. -/
structure StringState.Twin (s t : StringState) : Prop where
  read : s.read = t.read
  high : s.high = t.high
  mode : s.mode.Twin t.mode

namespace StringState.Twin

variable {s t : StringState}

/-- A state is its own twin. -/
theorem refl (s : StringState) : s.Twin s := by
  refine ⟨rfl, rfl, ?_⟩
  cases h : s.mode with
  | plain => exact .between (.inl rfl) (.inl rfl)
  | closed mark => exact .between (.inr ⟨_, rfl⟩) (.inr ⟨_, rfl⟩)
  | escaped mark => exact .escaped _ _
  | hex left unit mark => exact .hex _ _ _ _

/-- Twins have settled the same characters. -/
theorem settled (h : s.Twin t) : s.settled = t.settled := by
  rw [StringState.settled, StringState.settled, h.read, h.high]

/-- Twins stay twins with one more character. -/
theorem push (h : s.Twin t) (c : Char) : (s.push c).Twin (t.push c) :=
  ⟨congrArg (c :: ·) h.settled, rfl, .between (.inl rfl) (.inl rfl)⟩

/-- Twins stay twins with one more code unit, wherever it began. -/
theorem pushUnit (h : s.Twin t) (unit : Nat) (mark other : List Char) :
    (s.pushUnit unit mark).Twin (t.pushUnit unit other) := by
  have closed : (StringMode.closed mark).Twin (.closed other) := .between (.inr ⟨_, rfl⟩) (.inr ⟨_, rfl⟩)
  rw [StringState.pushUnit, StringState.pushUnit, ← h.high]
  split_ifs
  · exact ⟨h.settled, rfl, closed⟩
  · cases s.high with
    | none => exact ⟨congrArg (_ :: ·) h.settled, rfl, closed⟩
    | some high =>
      refine ⟨?_, rfl, closed⟩
      dsimp only
      rw [h.read]
  · exact ⟨congrArg (_ :: ·) h.settled, rfl, closed⟩

end StringState.Twin

/-- Behind a backslash, the next character tells the escape. -/
theorem readString_escaped {opening : List Char} {s : StringState} {mark : List Char}
    (hs : s.mode = .escaped mark) : readString opening s (c :: rest) =
      if c = 'u' then readString opening { s with mode := .hex 4 0 (c :: rest) } rest
      else
        match shortEscape? c with
        | some e => readString opening (s.push e) rest
        | none => .error (.defect .escape mark) := by
  obtain ⟨read, high, mode⟩ := s
  cases hs
  rfl

/-- Inside a code unit, the next character is a digit of it or a defect. -/
theorem readString_hex {opening : List Char} {s : StringState} {left unit : Nat} {mark : List Char}
    (hs : s.mode = .hex left unit mark) : readString opening s (c :: rest) =
      match Text.Percent.hexValue? c with
      | none => .error (.defect .unicodeEscape mark)
      | some digit =>
        if left ≤ 1 then readString opening (s.pushUnit (16 * unit + digit) mark) rest
        else readString opening { s with mode := .hex (left - 1) (16 * unit + digit) mark } rest := by
  obtain ⟨read, high, mode⟩ := s
  cases hs
  rfl

/-- **A string ends at its quote**: what stands behind is not looked at. -/
theorem readString_local {opening : List Char} {s : StringState} {text : String}
    (h : readString opening s cs = .ok (text, rest)) :
    ∃ front, cs = front ++ rest ∧ ∀ (t : StringState) (other after : List Char), s.Twin t →
      readString other t (front ++ after) = .ok (text, after) := by
  induction cs generalizing s with
  | nil =>
    rw [readString] at h
    split at h <;> cases h
  | cons c cs ih =>
    -- A step takes one character and hands the rest on to a state that the twin reaches as well.
    have step {next : StringState} (h : readString opening next cs = .ok (text, rest))
        (same : ∀ (t : StringState) (other after : List Char), s.Twin t → ∃ follow : StringState,
          next.Twin follow ∧ readString other t (c :: after) = readString other follow after) :
        ∃ front, c :: cs = front ++ rest ∧ ∀ (t : StringState) (other after : List Char), s.Twin t →
          readString other t (front ++ after) = .ok (text, after) := by
      obtain ⟨front, rfl, back⟩ := ih h
      refine ⟨c :: front, rfl, fun t other after twin => ?_⟩
      obtain ⟨follow, twins, reads⟩ := same t other (front ++ after) twin
      rw [List.cons_append, reads, back follow other after twins]
    have between (hs : s.mode = .plain ∨ ∃ mark, s.mode = .closed mark) :
        ∃ front, c :: cs = front ++ rest ∧ ∀ (t : StringState) (other after : List Char), s.Twin t →
          readString other t (front ++ after) = .ok (text, after) := by
      rw [readString_cons hs] at h
      split_ifs at h with quote backslash control
      · cases h
        refine ⟨[c], rfl, fun t other after twin => ?_⟩
        rw [List.singleton_append, readString_cons (twin.mode.of_between hs), if_pos quote, twin.settled]
      · refine step h fun t other after twin =>
          ⟨{ t with mode := .escaped (c :: after) }, ⟨twin.read, twin.high, .escaped _ _⟩, ?_⟩
        rw [readString_cons (twin.mode.of_between hs), if_neg quote, if_pos backslash]
      · refine step h fun t other after twin => ⟨t.push c, twin.push c, ?_⟩
        rw [readString_cons (twin.mode.of_between hs), if_neg quote, if_neg backslash, if_neg control]
    cases hs : s.mode with
    | plain => exact between (.inl hs)
    | closed mark => exact between (.inr ⟨mark, hs⟩)
    | escaped mark =>
      rw [readString_escaped hs] at h
      split_ifs at h with unit
      · refine step h fun t other after twin =>
          ⟨{ t with mode := .hex 4 0 (c :: after) }, ⟨twin.read, twin.high, .hex _ _ _ _⟩, ?_⟩
        obtain ⟨_, ht⟩ := (hs ▸ twin.mode).of_escaped
        rw [readString_escaped ht, if_pos unit]
      · split at h
        · rename_i e short
          refine step h fun t other after twin => ⟨t.push e, twin.push e, ?_⟩
          obtain ⟨_, ht⟩ := (hs ▸ twin.mode).of_escaped
          rw [readString_escaped ht, if_neg unit, short]
        · cases h
    | hex left unit mark =>
      rw [readString_hex hs] at h
      split at h
      · cases h
      · rename_i digit value
        split_ifs at h with last
        · refine step h fun t other after twin => ?_
          obtain ⟨begun, ht⟩ := (hs ▸ twin.mode).of_hex
          refine ⟨t.pushUnit (16 * unit + digit) begun, twin.pushUnit _ _ _, ?_⟩
          rw [readString_hex ht, value]
          exact if_pos last
        · refine step h fun t other after twin => ?_
          obtain ⟨begun, ht⟩ := (hs ▸ twin.mode).of_hex
          refine ⟨{ t with mode := .hex (left - 1) (16 * unit + digit) begun },
            ⟨twin.read, twin.high, .hex _ _ _ _⟩, ?_⟩
          rw [readString_hex ht, value]
          exact if_neg last

/-! ## Numbers and words -/

/-- What stands behind the digits of a number does not go on with them, and begins no fraction. -/
def Stops (rest : List Char) : Prop :=
  ∀ c ∈ rest.head?, c.isDigit = false ∧ c ≠ '.'

/-- What may follow a value does not go on with the digits of a number. -/
theorem Closes.stops (h : Closes rest) : Stops rest := by
  intro c hc
  refine ⟨h.ends.1 c hc, ?_⟩
  rintro rfl
  have hc := h _ hc
  revert hc
  decide

/-- Where the digits stop there is no fraction. -/
theorem Stops.fraction (h : Stops rest) : fraction rest = none := by
  cases rest with
  | nil => rfl
  | cons c rest =>
    have point := (h c rfl).2
    unfold Json.fraction
    split
    · rename_i same
      exact absurd (List.cons.inj same).1 point
    · rfl

/-- What is left behind a part of a number that may be missing. -/
def leftBehind {α : Type} (cs : List Char) (part : Option (α × List Char)) : List Char :=
  match part with
  | some (_, rest) => rest
  | none => cs

/-- Digits at the front are taken, and no digit is behind them. -/
theorem exists_digits (cs : List Char) : ∃ digits rest, cs.takeWhile Char.isDigit = digits ∧
    cs.dropWhile Char.isDigit = rest ∧ cs = digits ++ rest ∧ (∀ c ∈ digits, c.isDigit = true) ∧
      ∀ c ∈ rest.head?, c.isDigit = false := by
  refine ⟨_, _, rfl, rfl, List.takeWhile_append_dropWhile.symm, fun c => List.mem_takeWhile_imp,
    fun c hc => ?_⟩
  have head := List.head?_dropWhile_not Char.isDigit cs
  rw [Option.mem_def.mp hc] at head
  simpa using head

/-- A point begins a fraction if a digit follows it. -/
theorem fraction_cons (cs : List Char) : fraction ('.' :: cs) =
    if (cs.takeWhile Char.isDigit).isEmpty then none
    else some (cs.takeWhile Char.isDigit, cs.dropWhile Char.isDigit) :=
  rfl

/-- A fraction is read from a front of the text, whatever stops behind it. -/
theorem fraction_local (cs : List Char) : ∃ front, cs = front ++ leftBehind cs (fraction cs) ∧
    ∀ after, Stops after → (∀ c ∈ (front ++ after).head?, c.isDigit = false) ∧
      (fraction (front ++ after)).map (·.1) = (fraction cs).map (·.1) ∧
      leftBehind (front ++ after) (fraction (front ++ after)) = after := by
  cases h : fraction cs with
  | none =>
    refine ⟨[], rfl, fun after stops => ⟨fun c hc => (stops c hc).1, ?_⟩⟩
    rw [List.nil_append, stops.fraction]
    exact ⟨rfl, rfl⟩
  | some found =>
    obtain ⟨digits, rest⟩ := found
    unfold fraction at h
    split at h
    · rename_i behind
      dsimp only at h
      split_ifs at h with empty
      cases h
      obtain ⟨digits, rest, taken, left, rfl, digit, -⟩ := exists_digits behind
      refine ⟨'.' :: digits, ?_, fun after stops => ⟨?_, ?_⟩⟩
      · rw [left]
        rfl
      · rintro c ⟨⟩
        rfl
      · obtain ⟨taken', left'⟩ := takeWhile_digits digit fun c hc => (stops c hc).1
        rw [taken] at empty ⊢
        rw [List.cons_append, fraction_cons, taken', left', if_neg empty]
        exact ⟨rfl, rfl⟩
    · cases h

/-- The sign of an exponent, and what stands behind it. -/
def signOf (cs : List Char) : Bool × List Char :=
  match cs with
  | '-' :: unsigned => (true, unsigned)
  | '+' :: unsigned => (false, unsigned)
  | unsigned => (false, unsigned)

/-- A mark begins an exponent if digits follow it, perhaps behind a sign. -/
theorem exponent_cons (mark : Char) (signed : List Char) : exponent (mark :: signed) =
    if mark = 'e' || mark = 'E' then
      let digits := (signOf signed).2.takeWhile Char.isDigit
      if digits.isEmpty then none
      else
        let n : Int := digitsValue digits
        some (if (signOf signed).1 then -n else n, (signOf signed).2.dropWhile Char.isDigit)
    else none :=
  rfl

/-- A sign is read from a front of the text, whatever digits stand behind it. -/
theorem signOf_local (cs : List Char) : ∃ front, cs = front ++ (signOf cs).2 ∧
    ∀ c after, c.isDigit = true → signOf (front ++ c :: after) = ((signOf cs).1, c :: after) := by
  have unsigned (c : Char) (after : List Char) (h : c.isDigit = true) :
      signOf (c :: after) = (false, c :: after) := by
    unfold signOf
    split
    · rename_i minus
      exact absurd (List.cons.inj minus).1 (digit_ne h rfl)
    · rename_i plus
      exact absurd (List.cons.inj plus).1 (digit_ne h rfl)
    · rfl
  unfold signOf
  split
  · exact ⟨['-'], rfl, fun c after _ => rfl⟩
  · exact ⟨['+'], rfl, fun c after _ => rfl⟩
  · exact ⟨[], rfl, unsigned⟩

/-- An exponent is read from a front of the text, whatever closes behind it. -/
theorem exponent_local (cs : List Char) : ∃ front, cs = front ++ leftBehind cs (exponent cs) ∧
    ∀ after, Closes after → Stops (front ++ after) ∧
      (exponent (front ++ after)).map (·.1) = (exponent cs).map (·.1) ∧
      leftBehind (front ++ after) (exponent (front ++ after)) = after := by
  have missing (h : exponent cs = none) : ∃ front, cs = front ++ leftBehind cs (exponent cs) ∧
      ∀ after, Closes after → Stops (front ++ after) ∧
        (exponent (front ++ after)).map (·.1) = (exponent cs).map (·.1) ∧
        leftBehind (front ++ after) (exponent (front ++ after)) = after := by
    refine ⟨[], by rw [h]; rfl, fun after closes => ⟨closes.stops, ?_⟩⟩
    rw [List.nil_append, closes.ends.2.2, h]
    exact ⟨rfl, rfl⟩
  cases cs with
  | nil => exact missing rfl
  | cons mark signed =>
    obtain ⟨sign, split, signs⟩ := signOf_local signed
    obtain ⟨digits, rest, taken, left, same, digit, -⟩ := exists_digits (signOf signed).2
    have read := exponent_cons mark signed
    dsimp only at read
    rw [taken, left] at read
    by_cases isMark : (mark = 'e' || mark = 'E') = true
    swap
    · exact missing (read.trans (if_neg isMark))
    rw [if_pos isMark] at read
    cases digits with
    | nil => exact missing read
    | cons d ds =>
      rw [if_neg (by simp)] at read
      refine ⟨mark :: (sign ++ d :: ds), ?_, fun after closes => ⟨?_, ?_⟩⟩
      · rw [read, leftBehind, List.cons_append, List.append_assoc, ← same, ← split]
      · rintro c ⟨⟩
        simp only [Bool.or_eq_true, decide_eq_true_eq] at isMark
        rcases isMark with rfl | rfl
        · exact ⟨rfl, by decide⟩
        · exact ⟨rfl, by decide⟩
      · obtain ⟨taken', left'⟩ := takeWhile_digits digit closes.ends.1
        have sign' := signs d (ds ++ after) (digit d List.mem_cons_self)
        rw [← List.cons_append] at sign'
        have reads := exponent_cons mark (sign ++ (d :: ds ++ after))
        dsimp only at reads
        rw [sign'] at reads
        dsimp only at reads
        rw [taken', left', if_pos isMark, if_neg (by simp)] at reads
        rw [List.cons_append, List.append_assoc, reads, read]
        exact ⟨rfl, rfl⟩

/-- The first digits of a number are read from a front of the text, and no digit follows but behind a zero. -/
theorem whole?_local {digits : List Char} (h : whole? cs = some (digits, rest)) :
    cs = digits ++ rest ∧ (∃ d ds, digits = d :: ds) ∧ (∀ c ∈ digits, c.isDigit = true) ∧
      ∀ after, (∀ c ∈ after.head?, c.isDigit = false) → whole? (digits ++ after) = some (digits, after) := by
  unfold whole? at h
  split at h
  · cases h
    exact ⟨rfl, ⟨_, _, rfl⟩, by simp, fun after _ => rfl⟩
  · rename_i c behind zero
    split_ifs at h with digit
    cases h
    obtain ⟨digits, rest, taken, left, same, isDigit, -⟩ := exists_digits (c :: behind)
    have first : digits = c :: behind.takeWhile Char.isDigit := by
      rw [← taken, List.takeWhile_cons_of_pos digit]
    rw [taken, left]
    refine ⟨same, ⟨_, _, first⟩, isDigit,
      fun after stops => whole?_append isDigit (by rw [first]; simp) ?_ stops⟩
    intro head
    rw [first] at head
    exact absurd (Option.some.inj head) (by rintro rfl; exact zero rfl)
  · cases h

/-- What the parts of a number stand for: its first digits, those of its fraction and its exponent. -/
def numberOf (negative : Bool) (digits : List Char) (part : Option (List Char)) (power : Option Int) :
    Except ReadError Json :=
  match part, power with
  | none, none =>
    if maxDigits < digits.length then .error (.tooLong digits.length)
    else
      let n : Int := digitsValue digits
      .ok (.int (if negative then -n else n))
  | _, _ =>
    let places := part.getD []
    .ok (.float (Binary64.ofDecimal negative (digitsValue (digits ++ places)) (power.getD 0 - places.length)))

/-- A number is read in three parts, of which two may be missing. -/
theorem readNumber_of_whole (negative : Bool) (start : List Char) {digits behind : List Char}
    (whole : whole? cs = some (digits, behind)) : readNumber negative start cs =
      (numberOf negative digits ((fraction behind).map (·.1))
        ((exponent (leftBehind behind (fraction behind))).map (·.1))).map fun v =>
          (v, leftBehind (leftBehind behind (fraction behind))
            (exponent (leftBehind behind (fraction behind)))) := by
  rw [readNumber_eq, whole]
  dsimp only
  cases fraction behind with
  | none =>
    dsimp only [leftBehind]
    cases exponent behind with
    | none =>
      dsimp only [numberOf, Option.map_none]
      split_ifs <;> rfl
    | some found => rfl
  | some part =>
    obtain ⟨places, behind⟩ := part
    dsimp only [leftBehind]
    cases exponent behind <;> rfl

/-- Without digits there is no number. -/
theorem readNumber_of_none (negative : Bool) (start : List Char) (none : whole? cs = none) :
    readNumber negative start cs = .error (.defect .value start) := by
  rw [readNumber_eq, none]

/-- **A number is read from a front of the text**, which begins with a digit. -/
theorem readNumber_local {negative : Bool} {start : List Char}
    (h : readNumber negative start cs = .ok (v, rest)) : ∃ d front, d.isDigit = true ∧
      cs = d :: (front ++ rest) ∧ ∀ other after, Closes after →
        readNumber negative other (d :: (front ++ after)) = .ok (v, after) := by
  cases whole : whole? cs with
  | none =>
    rw [readNumber_of_none negative start whole] at h
    cases h
  | some found =>
    obtain ⟨digits, behind⟩ := found
    rw [readNumber_of_whole negative start whole] at h
    obtain ⟨rfl, ⟨d, ds, rfl⟩, digit, again⟩ := whole?_local whole
    obtain ⟨part, same, parts⟩ := fraction_local behind
    obtain ⟨power, same', powers⟩ := exponent_local (leftBehind behind (fraction behind))
    cases number : numberOf negative (d :: ds) ((fraction behind).map (·.1))
        ((exponent (leftBehind behind (fraction behind))).map (·.1)) with
    | error e =>
      rw [number] at h
      cases h
    | ok value =>
      rw [number] at h
      obtain ⟨rfl, rfl⟩ := Prod.mk.inj (Except.ok.inj h)
      refine ⟨d, ds ++ (part ++ power), digit d List.mem_cons_self, ?_, fun other after closes => ?_⟩
      · rw [List.append_assoc, List.append_assoc, ← same', ← same]
        rfl
      · obtain ⟨stops, power', left'⟩ := powers after closes
        obtain ⟨noDigit, part', left⟩ := parts (power ++ after) stops
        have shape : d :: (ds ++ (part ++ power) ++ after) = d :: ds ++ (part ++ (power ++ after)) := by
          simp
        rw [shape, readNumber_of_whole negative other (again _ noDigit), part', left, power', left', number]
        rfl

/-- A word is read exactly if it stands in front. -/
theorem word?_eq_some_iff {word : List Char} : word? word cs = some rest ↔ cs = word ++ rest := by
  induction word generalizing cs with
  | nil => simp [word?, eq_comm]
  | cons w word ih =>
    cases cs with
    | nil => simp [word?]
    | cons c cs =>
      rw [word?]
      split_ifs with hw
      · rw [ih, hw, List.cons_append, List.cons.injEq]
        simp
      · simp [Ne.symm hw]

/-- A word is read, whatever stands behind it. -/
theorem readScalar_word {word : String} (h : (word, v) ∈ words) (after : List Char) :
    readScalar (word.toList ++ after) = .ok (v, after) := by
  simp only [words, List.mem_cons, Prod.mk.injEq, List.not_mem_nil, or_false] at h
  rcases h with ⟨rfl, rfl⟩ | ⟨rfl, rfl⟩ | ⟨rfl, rfl⟩ | ⟨rfl, rfl⟩ | ⟨rfl, rfl⟩ | ⟨rfl, rfl⟩ <;> rfl

/-- What is no word is read as a number, with a minus in front or without. -/
theorem readScalar_cases (cs : List Char) :
    (∃ word v rest, (word, v) ∈ words ∧ cs = word.toList ++ rest ∧ readScalar cs = .ok (v, rest)) ∨
      (∃ rest, cs = '-' :: rest ∧ readScalar cs = readNumber true cs rest) ∨
      readScalar cs = readNumber false cs cs := by
  have read := readScalar_eq cs
  split at read
  · rename_i done found
    obtain ⟨⟨word, v⟩, hw, hd⟩ := List.exists_of_findSome?_eq_some found
    obtain ⟨rest, taken, rfl⟩ := Option.map_eq_some_iff.mp hd
    exact .inl ⟨word, v, rest, hw, word?_eq_some_iff.mp taken, read⟩
  · split at read
    · exact .inr (.inl ⟨_, rfl, read⟩)
    · exact .inr (.inr read)

/-- **A word or a number is read from a front of the text.** -/
theorem readScalar_local : Local readScalar := by
  intro cs v rest h
  rcases readScalar_cases cs with ⟨word, value, behind, hw, rfl, read⟩ | ⟨behind, rfl, read⟩ | read <;>
    rw [read] at h
  · cases h
    refine ⟨word.toList, ?_, rfl, fun after _ => readScalar_word hw after⟩
    simp only [words, List.mem_cons, Prod.mk.injEq, List.not_mem_nil, or_false] at hw
    rcases hw with ⟨rfl, -⟩ | ⟨rfl, -⟩ | ⟨rfl, -⟩ | ⟨rfl, -⟩ | ⟨rfl, -⟩ | ⟨rfl, -⟩ <;> simp
  · obtain ⟨d, front, digit, rfl, again⟩ := readNumber_local h
    refine ⟨'-' :: d :: front, by simp, rfl, fun after closes => ?_⟩
    rw [List.cons_append, List.cons_append, readScalar_minus digit, again _ after closes]
  · obtain ⟨d, front, digit, rfl, again⟩ := readNumber_local h
    refine ⟨d :: front, by simp, rfl, fun after closes => ?_⟩
    rw [List.cons_append, readScalar_digit digit, again _ after closes]

/-! ## Separated elements -/

/-- The blanks in front of what is left after skipping them. -/
theorem exists_blank (cs : List Char) : ∃ blank, cs = blank ++ skip cs ∧
    (∀ c ∈ blank, isSpace c = true) ∧ ∀ c ∈ (skip cs).head?, isSpace c = false := by
  refine ⟨cs.takeWhile isSpace, List.takeWhile_append_dropWhile.symm, fun c => List.mem_takeWhile_imp,
    fun c hc => ?_⟩
  have head := List.head?_dropWhile_not isSpace cs
  rw [skip] at hc
  rw [Option.mem_def.mp hc] at head
  simpa using head

/-- Behind blanks, a front of what is left is what is left of the front. -/
theorem skip_front {blank front : List Char} (hb : ∀ c ∈ blank, isSpace c = true)
    (hr : ∀ c ∈ (front ++ rest).head?, isSpace c = false) : skip (blank ++ front) = front := by
  refine skip_append hb ?_
  cases front with
  | nil => nofun
  | cons c front => exact hr

/-- A mark behind blanks is reached whatever stands behind it. -/
theorem exists_mark {mark : Char} {after : List Char} (h : skip cs = mark :: after) :
    ∃ blank, cs = blank ++ mark :: after ∧ (∀ c ∈ blank, isSpace c = true) ∧
      ∀ other, skip (blank ++ mark :: other) = mark :: other := by
  obtain ⟨blank, same, hb, hh⟩ := exists_blank cs
  rw [h] at same hh
  exact ⟨blank, same, hb, fun other => skip_append hb hh⟩

section

variable {α : Type} {element : List Char → Read α} {close : Char} {finish : List α → Json} {d : Defect}
  {bound : List Char} {done : List α}

/-- **Separated elements end where they are closed**, if each element is read from a front of the text. -/
theorem readSeparated_local (hc : close = ']' ∨ close = '\x7d') (he : Local element)
    (h : readSeparated element close finish d bound done cs = .ok (v, rest)) :
    ∃ front, front ≠ [] ∧ cs = front ++ rest ∧ ∀ room after, front.length < room.length →
      readSeparated element close finish d room done (front ++ after) = .ok (v, after) := by
  have comma : close ≠ ',' := by rcases hc with rfl | rfl <;> decide
  induction bound generalizing done cs with
  | nil => cases h
  | cons b bound ih =>
    rcases readSeparated_cases element close finish d b bound done cs with
      ⟨e, -, failed⟩ | ⟨x, behind, first, ⟨after, closed⟩ | ⟨after, -, more⟩ | ⟨other, failed⟩⟩
    · rw [failed] at h
      cases h
    · rw [readSeparated_last first closed] at h
      cases h
      obtain ⟨front, -, rfl, again⟩ := he first
      obtain ⟨blank, rfl, hb, mark⟩ := exists_mark closed
      refine ⟨front ++ (blank ++ [close]), by simp, by simp, fun room after hr => ?_⟩
      obtain ⟨b, room, rfl⟩ := List.exists_cons_of_length_pos (Nat.zero_lt_of_lt hr)
      have shape : front ++ (blank ++ [close]) ++ after = front ++ (blank ++ close :: after) := by simp
      rw [shape]
      exact readSeparated_last (again _ (.append hb (closes_cons (.inr hc) after))) (mark after)
    · rw [readSeparated_more comma first more] at h
      obtain ⟨front, -, rfl, again⟩ := he first
      obtain ⟨blank, rfl, hb, mark⟩ := exists_mark more
      obtain ⟨gap, hgap, hg, head⟩ := exists_blank after
      obtain ⟨items, nonempty, hi, others⟩ := ih h
      rw [hi] at hgap head
      refine ⟨front ++ (blank ++ ',' :: (gap ++ items)), by simp, by rw [hgap]; simp,
        fun room after hr => ?_⟩
      obtain ⟨b, room, rfl⟩ := List.exists_cons_of_length_pos (Nat.zero_lt_of_lt hr)
      simp only [List.length_append, List.length_cons] at hr
      have shape : front ++ (blank ++ ',' :: (gap ++ items)) ++ after =
          front ++ (blank ++ ',' :: (gap ++ (items ++ after))) := by simp
      have skipped : skip (gap ++ (items ++ after)) = items ++ after := by
        refine skip_append hg ?_
        cases items with
        | nil => exact absurd rfl nonempty
        | cons c items => exact head
      rw [shape, readSeparated_more comma (again _ (.append hb (closes_cons (.inl rfl) _))) (mark _), skipped]
      exact others room after (by omega)
    · rw [failed] at h
      cases h

/-- What is in brackets ends with the closing one, whatever stands behind. -/
theorem readBracketed_local {opening : Char} (hc : close = ']' ∨ close = '\x7d') (he : Local element)
    (h : readBracketed element opening close finish d cs = .ok (v, rest)) :
    ∃ front, cs = front ++ rest ∧ ∀ after,
      readBracketed element opening close finish d (front ++ after) = .ok (v, after) := by
  rw [readBracketed] at h
  split_ifs at h with closed
  · obtain ⟨blank, same, hb, head⟩ := exists_blank cs
    cases hs : skip cs with
    | nil =>
      rw [hs] at closed
      cases closed
    | cons c after =>
      rw [hs] at closed h same head
      cases closed
      cases h
      refine ⟨blank ++ [close], by simpa using same, fun after => ?_⟩
      have skipped : skip (blank ++ close :: after) = close :: after := skip_append hb head
      rw [List.append_assoc, List.singleton_append, readBracketed, skipped]
      exact if_pos rfl
  · obtain ⟨gap, hgap, hg, head⟩ := exists_blank cs
    obtain ⟨items, nonempty, hi, again⟩ := readSeparated_local hc he h
    rw [hi] at hgap head closed
    refine ⟨gap ++ items, by rw [hgap, List.append_assoc], fun after => ?_⟩
    have skipped : skip (gap ++ (items ++ after)) = items ++ after := by
      refine skip_append hg ?_
      cases items with
      | nil => exact absurd rfl nonempty
      | cons c items => exact head
    have open_ : (items ++ after).head? ≠ some close := by
      cases items with
      | nil => exact absurd rfl nonempty
      | cons c items => exact closed
    rw [List.append_assoc, readBracketed, skipped, if_neg open_]
    refine again _ after ?_
    simp only [List.length_cons, List.length_append]
    omega

end

/-- **A field is read from a front of the text** if its value is. -/
theorem readField_local {value : List Char → Read Json} (hv : Local value) : Local (readField value) := by
  intro cs f rest h
  unfold readField at h
  split at h
  swap
  · cases h
  rename_i quoted
  split at h
  · cases h
  rename_i name afterName hname
  split at h
  swap
  · cases h
  rename_i afterColon hcolon
  split at h
  · cases h
  rename_i v behind found
  cases h
  obtain ⟨letters, rfl, named⟩ := readString_local hname
  obtain ⟨blank, rfl, hb, mark⟩ := exists_mark hcolon
  obtain ⟨gap, hgap, hg, head⟩ := exists_blank afterColon
  obtain ⟨front, nonempty, hf, again⟩ := hv found
  rw [hf] at hgap head
  refine ⟨'"' :: (letters ++ (blank ++ ':' :: (gap ++ front))), by simp, by rw [hgap]; simp,
    fun after closes => ?_⟩
  have shape : '"' :: (letters ++ (blank ++ ':' :: (gap ++ front))) ++ after =
      '"' :: (letters ++ (blank ++ ':' :: (gap ++ (front ++ after)))) := by simp
  have skipped : skip (gap ++ (front ++ after)) = front ++ after := by
    refine skip_append hg ?_
    cases front with
    | nil => exact absurd rfl nonempty
    | cons c front => exact head
  rw [shape, readField_quoted, named _ _ _ (.refl _)]
  simp only [mark, skipped, again after closes]

/-- A string is read by itself: only its quotes tell where it ends. -/
theorem readValue_string_local {levels : Nat} {quoted : List Char}
    (h : readValue levels ('"' :: quoted) = .ok (v, rest)) : ∃ front, front ≠ [] ∧
      '"' :: quoted = front ++ rest ∧
        ∀ after, Closes after → readValue levels (front ++ after) = .ok (v, after) := by
  rw [readValue_string] at h
  split at h
  · cases h
  · rename_i text behind read
    cases h
    obtain ⟨letters, rfl, again⟩ := readString_local read
    refine ⟨'"' :: letters, by simp, rfl, fun after _ => ?_⟩
    rw [List.cons_append, readValue_string, again _ _ _ (.refl _)]

/-- A number or a word is read by itself in front of what may follow a value. -/
theorem readValue_scalar_local {levels : Nat} (plain : ∀ c ∈ cs.head?, c ≠ '"' ∧ c ≠ '[' ∧ c ≠ '\x7b')
    (h : readValue levels cs = .ok (v, rest)) : ∃ front, front ≠ [] ∧ cs = front ++ rest ∧
      ∀ after, Closes after → readValue levels (front ++ after) = .ok (v, after) := by
  rw [readValue_scalar plain] at h
  obtain ⟨front, nonempty, rfl, again⟩ := readScalar_local h
  refine ⟨front, nonempty, rfl, fun after closes => ?_⟩
  cases front with
  | nil => exact absurd rfl nonempty
  | cons c front => rw [readValue_scalar (by exact plain), again after closes]

/-- **A value is read from a front of the text.** -/
theorem readValue_local (levels : Nat) : Local (readValue levels) := by
  induction levels with
  | zero =>
    intro cs v rest h
    rcases begins_cases cs with ⟨quoted, rfl⟩ | ⟨items, rfl⟩ | ⟨fields, rfl⟩ | plain
    · exact readValue_string_local h
    · cases h
    · cases h
    · exact readValue_scalar_local plain h
  | succ levels ih =>
    intro cs v rest h
    rcases begins_cases cs with ⟨quoted, rfl⟩ | ⟨items, rfl⟩ | ⟨fields, rfl⟩ | plain
    · exact readValue_string_local h
    · rw [readValue_array] at h
      obtain ⟨front, rfl, again⟩ := readBracketed_local (.inl rfl) ih h
      refine ⟨'[' :: front, by simp, rfl, fun after _ => ?_⟩
      rw [List.cons_append, readValue_array, again]
    · rw [readValue_object] at h
      obtain ⟨front, rfl, again⟩ := readBracketed_local (.inr rfl) (readField_local ih) h
      refine ⟨'\x7b' :: front, by simp, rfl, fun after _ => ?_⟩
      rw [List.cons_append, readValue_object, again]
    · exact readValue_scalar_local plain h

end ReflectedSchema.Json
