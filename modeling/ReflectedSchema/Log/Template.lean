import ReflectedSchema.Json.Literal
import ReflectedSchema.Number.Rounded

/-!
# Templates

A template is a text with fields.  A field is a percent sign, the name of a value in parentheses or
nothing if it takes the next argument, flags, a width, a precision, and a letter that says how the value
is written.  Filling a template in has to use every argument.

Every round of `fillFrom` takes at least one character, so the characters of the template bound it.
-/

namespace ReflectedSchema.Logging

/-- Why a template cannot be filled in. -/
inductive TemplateError where
  | tooFewArguments
  | tooManyArguments
  | needsNames
  | incomplete
  | incompleteName
  | unsupported (conversion : Char) (index : Nat)
  | notReal (conversion : Char) (typeName : String)
  | notInteger (conversion : Char) (typeName : String)
  | notFloat (typeName : String)
  | notCharacter
  | characterRange
  | widthNotInteger
  | missing (name : String)
  | notANumber
  | infinite
  | floatOverflow
  deriving DecidableEq, Repr

/-- The wording of a template error. -/
def TemplateError.message : TemplateError → String
  | .tooFewArguments => "not enough arguments for format string"
  | .tooManyArguments => "not all arguments converted during string formatting"
  | .needsNames => "format requires a mapping"
  | .incomplete => "incomplete format"
  | .incompleteName => "incomplete format key"
  | .unsupported conversion index =>
    -- a letter outside printable ASCII is known by its number alone
    let shown := if ' ' ≤ conversion && conversion ≤ '~' then conversion else '?'
    "unsupported format character '" ++ String.singleton shown ++ "' (0x" ++
      String.ofList (Nat.toDigits 16 conversion.toNat) ++ ") at index " ++ toString index
  | .notReal conversion typeName =>
    "%" ++ String.singleton conversion ++ " format: a real number is required, not " ++ typeName
  | .notInteger conversion typeName =>
    "%" ++ String.singleton conversion ++ " format: an integer is required, not " ++ typeName
  | .notFloat typeName => "must be real number, not " ++ typeName
  | .notCharacter => "%c requires int or char"
  | .characterRange => "%c arg not in range(0x110000)"
  | .widthNotInteger => "* wants int"
  | .missing name => Text.quoted name
  | .notANumber => "cannot convert float NaN to integer"
  | .infinite => "cannot convert float infinity to integer"
  | .floatOverflow => "int too large to convert to float"

/-- What a template is filled in with: arguments in order, or values with names. -/
structure Arguments where
  positional : List Json := []
  named : Option (List (String × Json)) := none

namespace Template

/-- How a field is laid out. -/
structure Layout where
  left : Bool := false
  plus : Bool := false
  space : Bool := false
  alternate : Bool := false
  zero : Bool := false
  width : Nat := 0
  precision : Option Nat := none
  deriving Repr

/-- The flags in front of a width. -/
def readFlags (l : Layout) : List Char → Layout × List Char
  | '-' :: rest => readFlags { l with left := true } rest
  | '+' :: rest => readFlags { l with plus := true } rest
  | ' ' :: rest => readFlags { l with space := true } rest
  | '#' :: rest => readFlags { l with alternate := true } rest
  | '0' :: rest => readFlags { l with zero := true } rest
  | rest => (l, rest)

/-- The number that digits write. -/
def numberOf (digits : List Char) : Nat :=
  digits.foldl (fun n d => 10 * n + (d.toNat - 48)) 0

/-- A number of the template, or the next argument for a star. -/
def readSize (args : List Json) (cs : List Char) :
    Except TemplateError (Option Int × List Json × List Char) :=
  match cs with
  | '*' :: rest =>
    match args with
    | .int n :: more => .ok (some n, more, rest)
    | .bool b :: more => .ok (some (if b then 1 else 0), more, rest)
    | _ :: _ => .error .widthNotInteger
    | [] => .error .tooFewArguments
  | cs =>
    let digits := cs.takeWhile Char.isDigit
    .ok (if digits.isEmpty then none else some (numberOf digits), args, cs.dropWhile Char.isDigit)

/-- The width and the precision of a field. -/
def readSizes (l : Layout) (args : List Json) (cs : List Char) :
    Except TemplateError (Layout × List Json × List Char) := do
  let (width, args, cs) ← readSize args cs
  let l := match width with
    | some w => { l with width := w.natAbs, left := l.left || w < 0 }
    | none => l
  match cs with
  | '.' :: rest =>
    let (precision, args, rest) ← readSize args rest
    return ({ l with precision := some (precision.getD 0).toNat }, args, rest)
  | _ => return (l, args, cs)

/-- A text as wide as a field. -/
def padText (l : Layout) (cs : List Char) : List Char :=
  let fill := List.replicate (l.width - cs.length) ' '
  if l.left then cs ++ fill else fill ++ cs

/-- A number as wide as a field: zeros stand between its sign and its digits. -/
def padNumber (l : Layout) (negative : Bool) (radixMark digits : List Char) : List Char :=
  let sign := if negative then ['-'] else if l.plus then ['+'] else if l.space then [' '] else []
  let front := sign ++ radixMark
  let missing := l.width - (front.length + digits.length)
  if l.zero && !l.left then front ++ List.replicate missing '0' ++ digits
  else padText l (front ++ digits)

/-- The integer part of a value. -/
def wholeOf (conversion : Char) : Json → Except TemplateError Int
  | .int n => .ok n
  | .bool b => .ok (if b then 1 else 0)
  | .float .nan => .error .notANumber
  | .float (.infinite _) => .error .infinite
  | .float (.finite s m e) =>
    let n := if 0 ≤ e then m * Nat.pow 2 e.toNat else m / Nat.pow 2 (-e).toNat
    .ok (if s then -(n : Int) else n)
  | v => .error (.notReal conversion v.typeName)

/-- A value as an integer. -/
def integerOf (conversion : Char) : Json → Except TemplateError Int
  | .int n => .ok n
  | .bool b => .ok (if b then 1 else 0)
  | v => .error (.notInteger conversion v.typeName)

/-- A value as a double. -/
def doubleOf : Json → Except TemplateError Binary64
  | .float x => .ok x
  | .int n => (Binary64.ofInt? n).elim (.error .floatOverflow) .ok
  | .bool b => (Binary64.ofInt? (if b then 1 else 0)).elim (.error .floatOverflow) .ok
  | v => .error (.notFloat v.typeName)

/-- An integer in a radix. -/
def writeInteger (l : Layout) (n : Int) (radix : Nat) (radixMark : List Char) : List Char :=
  let digits := Nat.toDigits radix n.natAbs
  let digits := List.replicate (l.precision.getD 0 - digits.length) '0' ++ digits
  padNumber l (n < 0) (if l.alternate then radixMark else []) digits

/-- A double by one of the three letters for doubles. -/
def writeDouble (l : Layout) (letter : Char) : Binary64 → List Char
  | .nan => padNumber l false [] "nan".toList
  | .infinite s => padNumber l s [] "inf".toList
  | .finite s m e =>
    let precision := l.precision.getD 6
    padNumber l s [] <|
      if letter = 'f' then Decimal.fixed m e precision l.alternate
      else if letter = 'e' then Decimal.scientific m e precision l.alternate
      else Decimal.significant m e precision l.alternate

/-- A literal in ASCII. -/
def asciiLiteral (v : Json) : List Char :=
  v.literal.toList.flatMap fun c =>
    let code := c.toNat
    if code < 0x80 then [c]
    else if code < 0x100 then '\\' :: 'x' :: Text.hexDigits 2 code
    else if code < 0x10000 then '\\' :: 'u' :: Text.hexDigits 4 code
    else '\\' :: 'U' :: Text.hexDigits 8 code

/-- A value as a character: a text of one, or the number of one. -/
def characterOf : Json → Except TemplateError Char
  | .str s =>
    match s.toList with
    | [c] => .ok c
    | _ => .error .notCharacter
  | .int n => if 0 ≤ n && n < 0x110000 then .ok (Char.ofNat n.toNat) else .error .characterRange
  | .bool b => .ok (Char.ofNat (if b then 1 else 0))
  | _ => .error .notCharacter

/-- Write a value by the letter of its field, which stands at an index of the template. -/
def write (l : Layout) (conversion : Char) (index : Nat) (v : Json) : Except TemplateError (List Char) := do
  let cut := fun (cs : List Char) => match l.precision with
    | some n => cs.take n
    | none => cs
  match conversion with
  | 's' => return padText l (cut v.plain.toList)
  | 'r' => return padText l (cut v.literal.toList)
  | 'a' => return padText l (cut (asciiLiteral v))
  | 'd' | 'i' | 'u' => return writeInteger l (← wholeOf conversion v) 10 []
  | 'o' => return writeInteger l (← integerOf conversion v) 8 ['0', 'o']
  | 'x' => return writeInteger l (← integerOf conversion v) 16 ['0', 'x']
  | 'X' => return (writeInteger l (← integerOf conversion v) 16 ['0', 'x']).map Char.toUpper
  | 'f' | 'e' | 'g' => return writeDouble l conversion (← doubleOf v)
  | 'F' | 'E' | 'G' =>
    return (writeDouble l conversion.toLower (← doubleOf v)).map Char.toUpper
  | 'c' => return padText l [← characterOf v]
  | c => throw (.unsupported c index)

/-- The name in front of a closing parenthesis, and the characters after that; parentheses inside it
come in pairs. -/
def readName (depth : Nat) (read : List Char) : List Char → Option (String × List Char)
  | [] => none
  | c :: rest =>
    if c = ')' then
      if depth = 0 then some (String.ofList read.reverse, rest)
      else readName (depth - 1) (c :: read) rest
    else readName (if c = '(' then depth + 1 else depth) (c :: read) rest

/-- The arguments of a field, and the characters after its name: a name leaves the value that it names
as the only argument, for this field and for those that follow. -/
def readNamed (named : Option (List (String × Json))) (args : List Json) (cs : List Char) :
    Except TemplateError (List Json × List Char) := do
  match cs with
  | '(' :: rest =>
    match named with
    | none => throw .needsNames
    | some values =>
      match readName 0 [] rest with
      | none => throw .incompleteName
      | some (name, after) =>
        match Json.lookup name values with
        | none => throw (.missing name)
        | some v => return ([v], after)
  | _ => return (args, cs)

/-- Fill in a field after its percent sign, where `length` characters of the template were given in
all: the text, the arguments that are left, and the characters after the field. -/
def fillField (length : Nat) (named : Option (List (String × Json))) (args : List Json)
    (cs : List Char) : Except TemplateError (List Char × List Json × List Char) := do
  let (args, cs) ← readNamed named args cs
  let (layout, cs) := readFlags {} cs
  let (layout, args, cs) ← readSizes layout args cs
  let cs := match cs with
    | c :: rest => if c = 'l' || c = 'h' || c = 'L' then rest else cs
    | [] => cs
  match cs, args with
  | [], _ => throw .incomplete
  | _ :: _, [] => throw .tooFewArguments
  | conversion :: rest, v :: args =>
    return (← write layout conversion (length - cs.length) v, args, rest)

/-- Fill in a template, in as many rounds as `bound` has characters. -/
def fillFrom (length : Nat) (named : Option (List (String × Json))) :
    (bound : List Char) → List Json → List Char → Except TemplateError (List Char)
  | [], _, _ => .ok []
  | _ :: bound, args, cs => do
    match cs with
    | [] => if named.isNone && !args.isEmpty then throw .tooManyArguments else return []
    | '%' :: '%' :: rest => return '%' :: (← fillFrom length named bound args rest)
    | '%' :: rest =>
      let (text, args, rest) ← fillField length named args rest
      return text ++ (← fillFrom length named bound args rest)
    | c :: rest => return c :: (← fillFrom length named bound args rest)

/-- Fill in a template. -/
def fill (template : String) (args : Arguments) : Except TemplateError String := do
  let cs := template.toList
  return String.ofList (← fillFrom cs.length args.named ('%' :: cs) args.positional cs)

/-- Whether a named field begins right after a percent sign. -/
def isNamedField (cs : List Char) : Bool :=
  match cs with
  | '(' :: rest =>
    let isWord := fun (c : Char) => c.isAlphanum || c = '_'
    match rest.takeWhile isWord, rest.dropWhile isWord with
    | _ :: _, ')' :: after =>
      let sized := (readFlags {} after).2
      let size := fun (cs : List Char) => match cs with
        | '*' :: rest => rest
        | cs => cs.dropWhile Char.isDigit
      let afterWidth := size sized
      let conversion := match afterWidth with
        | '.' :: more => if (size more).length < more.length then size more else afterWidth
        | other => other
      match conversion with
      | c :: _ => "diouxefgcrsa%".toList.contains c.toLower
      | [] => false
    | _, _ => false
  | _ => false

/-- Whether a template has a named field. -/
def hasNamedField : List Char → Bool
  | [] => false
  | c :: rest => (c = '%' && isNamedField rest) || hasNamedField rest

end Template

end ReflectedSchema.Logging
