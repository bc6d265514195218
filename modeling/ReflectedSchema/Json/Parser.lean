import ReflectedSchema.Json.Basic
import ReflectedSchema.Text.Percent

/-!
# Reading JSON

The reader accepts the JSON grammar and the words `NaN`, `Infinity` and `-Infinity`.  A number with a
fraction or an exponent is a double, any other an integer.  A defect is reported together with the
characters that remained where it was found, so that the reader itself does not count lines;
`Position.of` turns their number into a line and a column of the whole text.

How deep values nest is bounded: the reader works through the nesting levels it has left.  Inside one
level the items are read in a loop that every item makes shorter, so the characters of the text bound
it.
-/

namespace ReflectedSchema.Json

/-- How many digits an integer may have. -/
def maxDigits : Nat := 4300

/-- What can be wrong with a text. -/
inductive Defect where
  | value
  | name
  | colon
  | comma
  | unterminated
  | control
  | escape
  | unicodeEscape
  | extra
  | byteOrderMark
  deriving DecidableEq, Repr

/-- The wording of a defect. -/
def Defect.message : Defect → String
  | .value => "Expecting value"
  | .name => "Expecting property name enclosed in double quotes"
  | .colon => "Expecting ':' delimiter"
  | .comma => "Expecting ',' delimiter"
  | .unterminated => "Unterminated string starting at"
  | .control => "Invalid control character at"
  | .escape => "Invalid \\escape"
  | .unicodeEscape => "Invalid \\uXXXX escape"
  | .extra => "Extra data"
  | .byteOrderMark => "Unexpected UTF-8 BOM (decode using utf-8-sig)"

/-- Why a text was not read. -/
inductive ReadError where
  /-- A defect, where the given characters remained. -/
  | defect (d : Defect) (remaining : List Char)
  /-- More levels than are read. -/
  | tooDeep
  /-- An integer of more than `maxDigits` digits. -/
  | tooLong (digits : Nat)
  deriving DecidableEq, Repr

/-- A step of the reader: a result and the characters after it. -/
abbrev Read (α : Type) := Except ReadError (α × List Char)

/-- The blanks between tokens. -/
def isSpace (c : Char) : Bool :=
  c = ' ' || c = '\t' || c = '\n' || c = '\r'

/-- The characters after the blanks. -/
def skip (cs : List Char) : List Char :=
  cs.dropWhile isSpace

/-- The character after a backslash that is not `u`. -/
def shortEscape? (c : Char) : Option Char :=
  if c = '"' || c = '\\' || c = '/' then some c
  else if c = 'b' then some (Char.ofNat 8)
  else if c = 'f' then some (Char.ofNat 0xC)
  else if c = 'n' then some '\n'
  else if c = 'r' then some '\r'
  else if c = 't' then some '\t'
  else none

/-- Where the reader stands inside a string. -/
inductive StringMode where
  /-- Between characters. -/
  | plain
  /-- Between characters, right after an escape whose `u` was the head of `mark`. -/
  | closed (mark : List Char)
  /-- After a backslash, which was the head of `mark`. -/
  | escaped (mark : List Char)
  /-- Inside an escape with `left` digits to come; its `u` was the head of `mark`. -/
  | hex (left : Nat) (unit : Nat) (mark : List Char)

/-- The characters of a string read so far, in reverse, and a first half of a surrogate pair that
waits for the second. -/
structure StringState where
  read : List Char := []
  high : Option Nat := none
  mode : StringMode := .plain

/-- The characters read so far.  Half of a pair without the other half is shown as the replacement
character. -/
def StringState.settled (s : StringState) : List Char :=
  if s.high.isSome then Text.Utf8.replacement :: s.read else s.read

/-- Add a character. -/
def StringState.push (s : StringState) (c : Char) : StringState :=
  { read := c :: s.settled }

/-- Add a UTF-16 unit that was written as an escape: a second half completes a waiting pair, a first
half waits. -/
def StringState.pushUnit (s : StringState) (unit : Nat) (mark : List Char) : StringState :=
  if 0xD800 ≤ unit ∧ unit < 0xDC00 then
    { read := s.settled, high := some unit, mode := .closed mark }
  else if 0xDC00 ≤ unit ∧ unit < 0xE000 then
    match s.high with
    | some high =>
      { read := Char.ofNat (0x10000 + (high - 0xD800) * 0x400 + (unit - 0xDC00)) :: s.read
        mode := .closed mark }
    | none => { s.push Text.Utf8.replacement with mode := .closed mark }
  else { s.push (Char.ofNat unit) with mode := .closed mark }

/-- Read a string after its opening quote, which was the head of `opening`. -/
def readString (opening : List Char) (s : StringState) : List Char → Read String
  | [] =>
    match s.mode with
    | .plain | .escaped _ => .error (.defect .unterminated opening)
    | .closed mark | .hex _ _ mark => .error (.defect .unicodeEscape mark)
  | c :: rest =>
    match s.mode with
    | .escaped mark =>
      if c = 'u' then readString opening { s with mode := .hex 4 0 (c :: rest) } rest
      else
        match shortEscape? c with
        | some e => readString opening (s.push e) rest
        | none => .error (.defect .escape mark)
    | .hex left unit mark =>
      match Text.Percent.hexValue? c with
      | none => .error (.defect .unicodeEscape mark)
      | some digit =>
        if left ≤ 1 then readString opening (s.pushUnit (16 * unit + digit) mark) rest
        else readString opening { s with mode := .hex (left - 1) (16 * unit + digit) mark } rest
    | _ =>
      if c = '"' then .ok (String.ofList s.settled.reverse, rest)
      else if c = '\\' then readString opening { s with mode := .escaped (c :: rest) } rest
      else if c.toNat < 0x20 then .error (.defect .control (c :: rest))
      else readString opening (s.push c) rest

/-- The value of decimal digits. -/
def digitsValue (digits : List Char) : Nat :=
  digits.foldl (fun n d => 10 * n + (d.toNat - 48)) 0

/-- The fraction of a number: the digits after a point, if a digit follows one. -/
def fraction (cs : List Char) : Option (List Char × List Char) :=
  match cs with
  | '.' :: rest =>
    let digits := rest.takeWhile Char.isDigit
    if digits.isEmpty then none else some (digits, rest.dropWhile Char.isDigit)
  | _ => none

/-- The exponent of a number, if digits follow the mark and an optional sign. -/
def exponent (cs : List Char) : Option (Int × List Char) :=
  match cs with
  | mark :: rest =>
    if mark = 'e' || mark = 'E' then
      let (negative, unsigned) := match rest with
        | '-' :: unsigned => (true, unsigned)
        | '+' :: unsigned => (false, unsigned)
        | unsigned => (false, unsigned)
      let digits := unsigned.takeWhile Char.isDigit
      if digits.isEmpty then none
      else
        let n : Int := digitsValue digits
        some (if negative then -n else n, unsigned.dropWhile Char.isDigit)
    else none
  | [] => none

/-- Read a number after its sign; `start` remained where it began. -/
def readNumber (negative : Bool) (start : List Char) (cs : List Char) : Read Json :=
  let whole := match cs with
    | '0' :: rest => some (['0'], rest)
    | c :: _ => if c.isDigit then some (cs.takeWhile Char.isDigit, cs.dropWhile Char.isDigit) else none
    | [] => none
  match whole with
  | none => .error (.defect .value start)
  | some (digits, rest) =>
    let part := fraction rest
    let afterPart := match part with | some (_, r) => r | none => rest
    let power := exponent afterPart
    match part, power with
    | none, none =>
      if maxDigits < digits.length then .error (.tooLong digits.length)
      else
        let n : Int := digitsValue digits
        .ok (.int (if negative then -n else n), rest)
    | _, _ =>
      let places := match part with | some (p, _) => p | none => []
      let (e, after) := match power with | some (e, r) => (e, r) | none => (0, afterPart)
      .ok (.float (Binary64.ofDecimal negative (digitsValue (digits ++ places)) (e - places.length)), after)

/-- The rest of a text that begins with a word. -/
def word? : (word text : List Char) → Option (List Char)
  | [], rest => some rest
  | _ :: _, [] => none
  | w :: ws, c :: cs => if w = c then word? ws cs else none

/-- Read a value that is neither an array, an object nor a string. -/
def readScalar (cs : List Char) : Read Json :=
  let words : List (String × Json) :=
    [("null", .null), ("true", .bool true), ("false", .bool false), ("NaN", .float .nan),
     ("Infinity", .float (.infinite false)), ("-Infinity", .float (.infinite true))]
  match words.findSome? fun (w, v) => (word? w.toList cs).map fun rest => (v, rest) with
  | some done => .ok done
  | none =>
    match cs with
    | '-' :: rest => readNumber true cs rest
    | _ => readNumber false cs cs

/-- Read the items of an array after its first bracket or a comma.  `read` holds the items so far in
reverse; there are as many rounds as `bound` has characters, and each of them reads one item. -/
def readItems (value : List Char → Read Json) :
    (bound : List Char) → (read : List Json) → List Char → Read Json
  | [], _, cs => .error (.defect .value cs)
  | _ :: bound, read, cs =>
    match value cs with
    | .error e => .error e
    | .ok (item, rest) =>
      match skip rest with
      | ']' :: after => .ok (.arr (item :: read).reverse, after)
      | ',' :: after => readItems value bound (item :: read) (skip after)
      | other => .error (.defect .comma other)

/-- Read the fields of an object after its first brace or a comma, as `readItems` does. -/
def readFields (value : List Char → Read Json) :
    (bound : List Char) → (read : List (String × Json)) → List Char → Read Json
  | [], _, cs => .error (.defect .name cs)
  | _ :: bound, read, cs =>
    match cs with
    | '"' :: quotedName =>
      match readString cs {} quotedName with
      | .error e => .error e
      | .ok (name, afterName) =>
        match skip afterName with
        | ':' :: afterColon =>
          match value (skip afterColon) with
          | .error e => .error e
          | .ok (v, rest) =>
            match skip rest with
            | '\x7d' :: after => .ok (.obj (merge ((name, v) :: read).reverse), after)
            | ',' :: after => readFields value bound ((name, v) :: read) (skip after)
            | other => .error (.defect .comma other)
        | other => .error (.defect .colon other)
    | _ => .error (.defect .name cs)

/-- Read a value with a number of nesting levels left. -/
def readValue : (levels : Nat) → List Char → Read Json
  | _, '"' :: rest =>
    match readString ('"' :: rest) {} rest with
    | .error e => .error e
    | .ok (s, after) => .ok (.str s, after)
  | 0, '[' :: _ => .error .tooDeep
  | 0, '\x7b' :: _ => .error .tooDeep
  | levels + 1, '[' :: rest =>
    match skip rest with
    | ']' :: after => .ok (.arr [], after)
    | items => readItems (readValue levels) ('[' :: rest) [] items
  | levels + 1, '\x7b' :: rest =>
    match skip rest with
    | '\x7d' :: after => .ok (.obj [], after)
    | fields => readFields (readValue levels) ('\x7b' :: rest) [] fields
  | _, cs => readScalar cs

/-- Read a text that holds one value, of a number of levels at most, and blanks around it. -/
def read (levels : Nat) (cs : List Char) : Except ReadError Json :=
  match cs with
  | c :: _ =>
    if c = Char.ofNat 0xFEFF then .error (.defect .byteOrderMark cs)
    else
      match readValue levels (skip cs) with
      | .error e => .error e
      | .ok (v, rest) =>
        let after := skip rest
        if after.isEmpty then .ok v else .error (.defect .extra after)
  | [] => .error (.defect .value [])

/-- The value of a text, if it is one. -/
def ofText? (levels : Nat) (s : String) : Option Json :=
  (read levels s.toList).toOption

/-- A line and a column of a text, both counted from one. -/
structure Position where
  line : Nat
  column : Nat
  deriving DecidableEq, Repr

/-- The position after some characters of a text. -/
def Position.after (cs : List Char) : Position :=
  cs.foldl (fun p c => if c = '\n' then ⟨p.line + 1, 1⟩ else ⟨p.line, p.column + 1⟩) ⟨1, 1⟩

/-- The position in a text where some of its characters remain. -/
def Position.of (cs remaining : List Char) : Position :=
  Position.after (cs.take (cs.length - remaining.length))

end ReflectedSchema.Json
