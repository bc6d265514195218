import ReflectedSchema.Json.Basic
import ReflectedSchema.Text.Blank

/-!
# Files of assignments

A settings file assigns values to names, one `NAME=value` after the other.  A name may stand in single
quotes, and `export` may stand in front of it.  A value is the rest of its line up to a comment, or it
stands in quotes, between which it may run over several lines and have escapes.  A line that is none of
this is left out.  Inside a value `${NAME}` stands for the value of a variable, and `${NAME:-text}` for
a text if there is no such variable.

Every round of the reader takes at least one character, so the characters of the file bound it.
-/

namespace ReflectedSchema.Settings

/-- An assignment; a name can stand without a value. -/
abbrev Assignment := String × Option String

namespace Assignments

/-- Whether a character is a blank inside a line. -/
def isGap (c : Char) : Bool :=
  Text.isBlank c && c ≠ '\n'

/-- The characters after the blanks inside a line. -/
def skipGap (cs : List Char) : List Char :=
  cs.dropWhile isGap

/-- The characters after those of a line; its end belongs to it. -/
def skipLine (cs : List Char) : List Char :=
  (cs.dropWhile (· ≠ '\n')).drop 1

/-- The characters up to a closing quote, kept in reverse in `read`, and those after it.  A quote behind
a backslash closes only if no other quote does: then the last of them, for which `fallback` stands. -/
def untilQuote (quote : Char) (fallback : Option (List Char × List Char)) (read : List Char) :
    List Char → Option (List Char × List Char)
  | [] => fallback
  | '\\' :: c :: rest =>
    if c = quote then untilQuote quote (some (('\\' :: read).reverse, rest)) (c :: '\\' :: read) rest
    else untilQuote quote fallback ('\\' :: read) (c :: rest)
  | c :: rest =>
    if c = quote then some (read.reverse, rest) else untilQuote quote fallback (c :: read) rest

/-- The characters that escapes stand for; a backslash in front of any other character stays. -/
def unescape (escapes : List (Char × Char)) : List Char → List Char
  | '\\' :: c :: rest =>
    match Json.lookup c escapes with
    | some e => e :: unescape escapes rest
    | none => '\\' :: unescape escapes (c :: rest)
  | c :: rest => c :: unescape escapes rest
  | [] => []

/-- The escapes between single quotes. -/
def singleEscapes : List (Char × Char) := [('\\', '\\'), ('\'', '\'')]

/-- The escapes between double quotes. -/
def doubleEscapes : List (Char × Char) :=
  [('\\', '\\'), ('\'', '\''), ('"', '"'), ('a', Char.ofNat 7), ('b', Char.ofNat 8),
   ('f', Char.ofNat 0xC), ('n', '\n'), ('r', '\r'), ('t', '\t'), ('v', Char.ofNat 0xB)]

/-- The characters in front of a comment, which begins with a blank and a hash. -/
def beforeComment : List Char → List Char
  | [] => []
  | c :: rest =>
    if Text.isBlank c && (rest.dropWhile Text.isBlank).head? = some '#' then []
    else c :: beforeComment rest

/-- A step of the reader: a result and the characters after it, or the characters where it failed. -/
abbrev Read (α : Type) := Except (List Char) (α × List Char)

/-- Read the name of an assignment; a comment has none. -/
def readName (cs : List Char) : Read (Option (List Char)) :=
  match cs with
  | '#' :: _ => .ok (none, cs)
  | '\'' :: rest =>
    let name := rest.takeWhile (· ≠ '\'')
    match rest.dropWhile (· ≠ '\'') with
    | _ :: after => if name.isEmpty then .error cs else .ok (some name, after)
    | [] => .error cs
  | _ =>
    let isName := fun c => c ≠ '=' && c ≠ '#' && !Text.isBlank c
    let name := cs.takeWhile isName
    if name.isEmpty then .error cs else .ok (some name, cs.dropWhile isName)

/-- Read a value. -/
def readValue (cs : List Char) : Read (List Char) :=
  match cs with
  | '\'' :: rest =>
    match untilQuote '\'' none [] rest with
    | some (value, after) => .ok (unescape singleEscapes value, after)
    | none => .error cs
  | '"' :: rest =>
    match untilQuote '"' none [] rest with
    | some (value, after) => .ok (unescape doubleEscapes value, after)
    | none => .error cs
  | _ =>
    .ok (Text.trimEnd (beforeComment (cs.takeWhile (· ≠ '\n'))), cs.dropWhile (· ≠ '\n'))

/-- The characters after a comment, if one follows. -/
def skipComment (cs : List Char) : List Char :=
  match skipGap cs with
  | '#' :: rest => rest.dropWhile (· ≠ '\n')
  | _ => cs

/-- The characters after the word `export`, if it stands in front of a name. -/
def skipExport (cs : List Char) : List Char :=
  match cs with
  | 'e' :: 'x' :: 'p' :: 'o' :: 'r' :: 't' :: c :: rest => if isGap c then skipGap rest else cs
  | _ => cs

/-- Read an assignment or a comment up to the end of its line. -/
def readLine (cs : List Char) :
    Except (List Char) (Option (List Char × Option (List Char)) × List Char) := do
  let (name, cs) ← readName (skipExport cs)
  let (value, cs) ← match skipGap cs with
    | '=' :: rest => do
      let (value, rest) ← readValue (skipGap rest)
      pure (some value, rest)
    | rest => pure (none, rest)
  let cs := skipComment cs
  match skipGap cs with
  | [] => return (name.map (·, value), [])
  | '\n' :: rest => return (name.map (·, value), rest)
  | _ => throw cs

/-- The assignments of a text, in as many rounds as `bound` has characters. -/
def readFrom : (bound : List Char) → List Char → List (List Char × Option (List Char))
  | [], _ => []
  | _ :: bound, cs =>
    match cs.dropWhile Text.isBlank with
    | [] => []
    | line =>
      match readLine line with
      | .ok (some assignment, rest) => assignment :: readFrom bound rest
      | .ok (none, rest) => readFrom bound rest
      | .error stuck => readFrom bound (skipLine stuck)

/-- The variable that an opening brace begins: its name, the text that stands in for it, and the
characters after it. -/
def readVariable (cs : List Char) : Option (List Char × List Char × List Char) :=
  let name := cs.takeWhile fun c => c ≠ '\x7d' && c ≠ ':'
  match cs.dropWhile fun c => c ≠ '\x7d' && c ≠ ':' with
  | ':' :: '-' :: rest =>
    match rest.dropWhile (· ≠ '\x7d') with
    | _ :: after => some (name, rest.takeWhile (· ≠ '\x7d'), after)
    | [] => none
  | '\x7d' :: after => some (name, [], after)
  | _ => none

/-- A value with its variables replaced, in as many rounds as `bound` has characters. -/
def expandFrom (value? : String → Option String) : (bound : List Char) → List Char → List Char
  | [], _ => []
  | _ :: _, [] => []
  | _ :: bound, '$' :: '\x7b' :: rest =>
    match readVariable rest with
    | some (name, instead, after) =>
      ((value? (String.ofList name)).map String.toList).getD instead ++ expandFrom value? bound after
    | none => '$' :: expandFrom value? bound ('\x7b' :: rest)
  | _ :: bound, c :: rest => c :: expandFrom value? bound rest

/-- Line ends as line feeds. -/
def withLineFeeds : List Char → List Char
  | '\r' :: '\n' :: rest => '\n' :: withLineFeeds rest
  | '\r' :: rest => '\n' :: withLineFeeds rest
  | c :: rest => c :: withLineFeeds rest
  | [] => []

/-- The assignments of a file.  A variable in a value is one of those given or, if there is none, one
that was assigned before. -/
def ofText (values : List (String × String)) (text : String) : List Assignment :=
  let cs := withLineFeeds text.toList
  (readFrom cs cs).foldl (fun assigned (name, value) =>
    let value? := fun name =>
      match Json.lookup name values, Json.lookup name assigned with
      | some v, _ => some v
      | none, some v => some (v.getD "")
      | none, none => none
    let value := value.map fun cs => String.ofList (expandFrom value? cs cs)
    Json.set (String.ofList name) value assigned) []

end Assignments

end ReflectedSchema.Settings
