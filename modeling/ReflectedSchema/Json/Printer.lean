import ReflectedSchema.Json.Basic
import ReflectedSchema.Text.Quoted

/-!
# Writing JSON

All output is ASCII: a character outside it is written as `\uXXXX`, one beyond the basic plane as a
surrogate pair.  The three layouts differ only in the blanks around the separators: none, one after
each separator, or every item on a line of its own.
-/

namespace ReflectedSchema.Json

/-- Where blanks are put. -/
inductive Layout where
  /-- No blanks. -/
  | compact
  /-- One space after `,` and `:`. -/
  | spaced
  /-- Every item on its own line, two spaces deeper than its container, and a space after `:`. -/
  | indented
  deriving DecidableEq, Repr

/-- The blanks in front of an item that is not the first, at a nesting level. -/
def Layout.gap (layout : Layout) (level : Nat) : List Char :=
  match layout with
  | .compact => []
  | .spaced => [' ']
  | .indented => '\n' :: List.replicate (2 * level) ' '

/-- The blanks after an opening and before a closing bracket. -/
def Layout.edge (layout : Layout) (level : Nat) : List Char :=
  match layout with
  | .indented => '\n' :: List.replicate (2 * level) ' '
  | _ => []

/-- The separator of a name and its value. -/
def Layout.colon : Layout → List Char
  | .compact => [':']
  | _ => [':', ' ']

/-- A UTF-16 unit as an escape. -/
def unitEscape (unit : Nat) : List Char :=
  '\\' :: 'u' :: Text.hexDigits 4 unit

/-- One character of a string. -/
def stringChar (c : Char) : List Char :=
  if c = '"' then ['\\', '"']
  else if c = '\\' then ['\\', '\\']
  else if c = '\n' then ['\\', 'n']
  else if c = '\r' then ['\\', 'r']
  else if c = '\t' then ['\\', 't']
  else if c.toNat = 0xC then ['\\', 'f']
  else if c.toNat = 8 then ['\\', 'b']
  else if 0x20 ≤ c.toNat ∧ c.toNat < 0x7F then [c]
  else if c.toNat < 0x10000 then unitEscape c.toNat
  else
    unitEscape (0xD800 + (c.toNat - 0x10000) / 0x400) ++ unitEscape (0xDC00 + (c.toNat - 0x10000) % 0x400)

/-- A string with its quotes. -/
def stringText (s : String) : List Char :=
  '"' :: s.toList.flatMap stringChar ++ ['"']

mutual

/-- Write a value whose first line stands at a nesting level. -/
def write (layout : Layout) (level : Nat) : Json → List Char
  | .null => "null".toList
  | .bool true => "true".toList
  | .bool false => "false".toList
  | .int n => (toString n).toList
  | .float x => (x.textWith "Infinity" "NaN").toList
  | .str s => stringText s
  | .arr [] => ['[', ']']
  | .arr (item :: rest) =>
    '[' :: (layout.edge (level + 1) ++ write layout (level + 1) item ++
      writeItems layout (level + 1) rest ++ layout.edge level ++ [']'])
  | .obj [] => ['\x7b', '\x7d']
  | .obj ((name, value) :: rest) =>
    '\x7b' :: (layout.edge (level + 1) ++ stringText name ++ layout.colon ++
      write layout (level + 1) value ++ writeFields layout (level + 1) rest ++
      layout.edge level ++ ['\x7d'])

/-- Write the items after the first. -/
def writeItems (layout : Layout) (level : Nat) : List Json → List Char
  | [] => []
  | item :: rest =>
    ',' :: (layout.gap level ++ write layout level item ++ writeItems layout level rest)

/-- Write the fields after the first. -/
def writeFields (layout : Layout) (level : Nat) : List (String × Json) → List Char
  | [] => []
  | (name, value) :: rest =>
    ',' :: (layout.gap level ++ stringText name ++ layout.colon ++ write layout level value ++
      writeFields layout level rest)

end

/-- The JSON text of a value. -/
def text (layout : Layout) (v : Json) : String :=
  String.ofList (write layout 0 v)

end ReflectedSchema.Json
