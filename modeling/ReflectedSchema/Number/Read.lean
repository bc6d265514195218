import ReflectedSchema.Number.Binary64
import ReflectedSchema.Text.Blank
import ReflectedSchema.Text.Digit

/-!
# Numbers in settings

A number in a setting may have blanks around it, a sign, digits of any script, and single underscores
between digits.  A double may also be an infinity or not a number, in any letter case, and may leave
out the digits on one side of its point.
-/

namespace ReflectedSchema.Number

/-- A character beyond ASCII as an ASCII one: a blank is a space, a digit has its value, and nothing
else stands in a number. -/
def asciiChar (c : Char) : Char :=
  if c.toNat < 0x7F then c
  else if Text.isBlank c then ' '
  else
    match Text.digitValue? c with
    | some n => Char.ofNat (48 + n)
    | none => '?'

/-- Whether an ASCII character is a space. -/
def isSpace (c : Char) : Bool :=
  c = ' ' || (9 ≤ c.toNat && c.toNat ≤ 13)

/-- The characters of a number, in ASCII and without the spaces around them. -/
def stripped (s : String) : List Char :=
  let cs := s.toList.map asciiChar
  ((cs.dropWhile isSpace).reverse.dropWhile isSpace).reverse

/-- The characters without underscores, each of which must stand between two digits. -/
def withoutUnderscores (last : Char) : List Char → Option (List Char)
  | [] => if last = '_' then none else some []
  | c :: rest =>
    if c = '_' then if last.isDigit then withoutUnderscores c rest else none
    else if last = '_' && !c.isDigit then none
    else (withoutUnderscores c rest).map (c :: ·)

/-- The sign of a number, and what follows it. -/
def sign : List Char → Bool × List Char
  | '-' :: rest => (true, rest)
  | '+' :: rest => (false, rest)
  | rest => (false, rest)

/-- The value of decimal digits. -/
def digitsValue (digits : List Char) : Nat :=
  digits.foldl (fun n d => 10 * n + (d.toNat - 48)) 0

/-- The exponent of a double, which ends its text. -/
def exponent? : List Char → Option Int
  | [] => some 0
  | mark :: rest =>
    let (negative, digits) := sign rest
    if (mark = 'e' || mark = 'E') && !digits.isEmpty && digits.all Char.isDigit then
      let n : Int := digitsValue digits
      some (if negative then -n else n)
    else none

/-- The double that a text stands for. -/
def double? (s : String) : Option Binary64 := do
  let (negative, body) := sign (← withoutUnderscores ' ' (stripped s))
  let word := String.ofList (body.map Char.toLower)
  if word = "inf" || word = "infinity" then return .infinite negative
  if word = "nan" then return .nan
  let whole := body.takeWhile Char.isDigit
  let rest := body.dropWhile Char.isDigit
  let (places, rest) := match rest with
    | '.' :: more => (more.takeWhile Char.isDigit, more.dropWhile Char.isDigit)
    | rest => ([], rest)
  if whole.isEmpty && places.isEmpty then none
  let e ← exponent? rest
  return .ofDecimal negative (digitsValue (whole ++ places)) (e - places.length)

/-- The integer that a text stands for. -/
def integer? (s : String) : Option Int := do
  let (negative, body) := sign (← withoutUnderscores ' ' (stripped s))
  if body.isEmpty || !body.all Char.isDigit then none
  let n : Int := digitsValue body
  return if negative then -n else n

end ReflectedSchema.Number
